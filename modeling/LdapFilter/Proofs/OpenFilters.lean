import LdapFilter.Proofs.ErrorPlaces

/-!
# Where filters nest too deep

A run that nests too deep has opened as many filters as the limit allows, and all of them are open
(`Grammar.Opened`). It stops without a look at the next token, so that token need not open a filter.
If it does not, a run with one more level stops at the same place, where it wants a parenthesis.
`Deepens` says so of two runs, and goes through each construct by which filters are made of filters.
-/

namespace LdapFilter

open Grammar

/-! ## Open filters -/

namespace Grammar

/-- A text that begins `levels` filters, one inside the other, and ends where a filter inside all of
them may begin. -/
inductive Opened : (levels : Nat) → List Char → Prop where
  | outermost : Opened 0 []
  | list {levels : Nat} {operator : Char} {filters inner : List Char}
      (operator_eq : operator = '&' ∨ operator = '|')
      (closed : filters = [] ∨ Filters levels filters) (inside : Opened levels inner) :
      Opened (levels + 1) ('(' :: operator :: (filters ++ inner))
  | negation {levels : Nat} {inner : List Char} (inside : Opened levels inner) :
      Opened (levels + 1) ('(' :: '!' :: inner)

/-- A text of a list of filters that ends with `levels` open ones, behind some that are closed. -/
def OpenedInList (levels : Nat) (s : List Char) : Prop :=
  ∃ filters inner, s = filters ++ inner ∧ (filters = [] ∨ Filters levels filters) ∧
    Opened levels inner

theorem Opened.inList {levels : Nat} {s : List Char} (h : Opened levels s) :
    OpenedInList levels s :=
  ⟨[], s, rfl, .inl rfl, h⟩

/-- A filter in front of a list is one more that is closed. -/
theorem OpenedInList.cons {levels : Nat} {u s : List Char} (hu : Filter levels u)
    (h : OpenedInList levels s) : OpenedInList levels (u ++ s) := by
  obtain ⟨filters, inner, rfl, closed, inside⟩ := h
  exact ⟨u ++ filters, inner, by rw [List.append_assoc], .inr (.prepend hu closed), inside⟩

theorem OpenedInList.opened {levels : Nat} {operator : Char} {s : List Char}
    (h : OpenedInList levels s) (hop : operator = '&' ∨ operator = '|') :
    Opened (levels + 1) ('(' :: operator :: s) := by
  obtain ⟨filters, inner, rfl, closed, inside⟩ := h
  exact .list hop closed inside

mutual

/-- A filter closes the parentheses that it opens. -/
theorem Filter.count_eq : ∀ {levels : Nat} {s : List Char}, Filter levels s →
    s.count '(' = s.count ')'
  | _, _, .mk h => by
    have := h.count_eq
    simp
    omega

theorem Component.count_eq : ∀ {levels : Nat} {s : List Char}, Component levels s →
    s.count '(' = s.count ')'
  | _, _, .and h => by simpa using h.count_eq
  | _, _, .or h => by simpa using h.count_eq
  | _, _, .not h => by simpa using h.count_eq
  | _, _, .item h => by
    have plain := h.plain
    rw [List.count_eq_zero_of_not_mem fun hm => (plain _ hm).2.1 rfl,
      List.count_eq_zero_of_not_mem fun hm => (plain _ hm).2.2 rfl]

theorem Filters.count_eq : ∀ {levels : Nat} {s : List Char}, Filters levels s →
    s.count '(' = s.count ')'
  | _, _, .one h => h.count_eq
  | _, _, .cons h hs => by
    rw [List.count_append, List.count_append, h.count_eq, hs.count_eq]

end

/-- As many parentheses are open as there are levels. -/
theorem Opened.count_eq {levels : Nat} {s : List Char} (h : Opened levels s) :
    s.count '(' = s.count ')' + levels := by
  induction h with
  | outermost => rfl
  | @list levels operator filters inner hop closed _ ih =>
    have balanced : filters.count '(' = filters.count ')' := by
      obtain rfl | closed := closed
      · rfl
      · exact closed.count_eq
    obtain rfl | rfl := hop <;> simp <;> omega
  | negation _ ih =>
    simp
    omega

end Grammar

/-! ## Two limits -/

section Deepens

variable {σ τ : Type} [TokenSource σ]

/-- The run from `c` with the result `result` reads a text of `L` if it fits, and so does the one
with the result `result'`. If it nests too deep it has read a text of `D`, and the other run wants a
parenthesis at the token there if that is none. -/
def Deepens (F F' : Frame σ τ) (L D : List Char → Prop) (c : Lookahead σ)
    (result result' : EStateM.Result ParseError τ Unit) : Prop :=
  c.current.IsSpelled → ∃ (text : List Char) (m : Lookahead σ) (v : Verdict),
    Reads c text m ∧ v.Holds F m result ∧
    (v = .fits → L text ∧ Verdict.fits.Holds F' m result') ∧
    (v = .tooDeep → D text ∧
      (m.kind ≠ .lparen → (Verdict.lacks (.terminal .lparen)).Holds F' m result'))

namespace Deepens

variable {F F' : Frame σ τ} {L L₁ D D₁ : List Char → Prop} {c : Lookahead σ}
  {result result' no no' : EStateM.Result ParseError τ Unit}

theorem mono (h : Deepens F F' L₁ D₁ c result result') (hL : ∀ u, L₁ u → L u)
    (hD : ∀ u, D₁ u → D u) : Deepens F F' L D c result result' := by
  intro hc
  obtain ⟨text, m, v, hr, hv, hfits, hdeep⟩ := h hc
  refine ⟨text, m, v, hr, hv, ?_, ?_⟩
  · intro h
    exact ⟨hL _ (hfits h).1, (hfits h).2⟩
  · intro h
    exact ⟨hD _ (hdeep h).1, (hdeep h).2⟩

theorem of_ok (h : L []) : Deepens F F' L D c (.ok () (F.put c)) (.ok () (F'.put c)) :=
  fun _ => ⟨[], c, .fits, .nil c, rfl, fun _ => ⟨h, rfl⟩, nofun⟩

theorem ite {p : Prop} [Decidable p] (hyes : p → Deepens F F' L D c result result')
    (hno : ¬p → Deepens F F' L D c no no') :
    Deepens F F' L D c (if p then result else no) (if p then result' else no') := by
  by_cases h : p
  · rw [if_pos h, if_pos h]
    exact hyes h
  · rw [if_neg h, if_neg h]
    exact hno h

/-- Runs that need the token at their start may be told which character it spells. -/
theorem of_spelled (hk : c.kind ≠ .eof)
    (h : ∀ ch, c.current.Spells ch → Deepens F F' L D c result result') :
    Deepens F F' L D c result result' := by
  intro hc
  obtain he | ⟨ch, hch⟩ := hc
  · exact absurd he hk
  · exact h ch hch (.inr ⟨ch, hch⟩)

section Bind

variable [SpellingSource σ] {size : τ → Nat}

/-- Sequences deepen part by part: what the second parts read comes after a text of the first. -/
theorem bind {rule rule' : Rule τ size Unit} {next next' : Unit → Rule τ size Unit}
    (h : Deepens F F' L₁ D c (rule.run (F.put c)) (rule'.run (F'.put c)))
    (hn : ∀ u m, Reads c u m → L₁ u → rule.run (F.put c) = .ok () (F.put m) →
      Deepens F F' (fun s => L (u ++ s)) (fun s => D (u ++ s)) m ((next ()).run (F.put m))
        ((next' ()).run (F'.put m))) :
    Deepens F F' L D c ((rule >>= next).run (F.put c)) ((rule' >>= next').run (F'.put c)) := by
  intro hc
  obtain ⟨u, m, v, hr, hv, hfits, hdeep⟩ := h hc
  by_cases hv_fits : v = .fits
  · subst hv_fits
    obtain ⟨hu, hv'⟩ := hfits rfl
    have hv : rule.run (F.put c) = .ok () (F.put m) := hv
    have hv' : rule'.run (F'.put c) = .ok () (F'.put m) := hv'
    obtain ⟨text, n, w, hr', hw, hfits', hdeep'⟩ := hn u m hr hu hv (hr.isSpelled hc)
    rw [Rule.run_bind, Rule.run_bind, hv, hv']
    exact ⟨u ++ text, n, w, hr.append hr', hw, hfits', hdeep'⟩
  · refine ⟨u, m, v, hr, hv.bind hv_fits next, fun h => absurd h hv_fits, ?_⟩
    intro h
    obtain ⟨hu, hlacks⟩ := hdeep h
    exact ⟨hu, fun hk => (hlacks hk).bind nofun next'⟩

variable (F F') in
/-- Loops whose rounds deepen, and which go on at the same tokens, deepen behind the texts of the
rounds before. -/
theorem repeatWhile {again again' : τ → Bool} {round round' : Rule τ size Unit}
    {lt : ∀ s s', again s → round.run s = .ok () s' → size s' < size s}
    {lt' : ∀ s s', again' s → round'.run s = .ok () s' → size s' < size s}
    (ha : ∀ c, again' (F'.put c) = again (F.put c))
    (hround : ∀ c, Deepens F F' L₁ D c (round.run (F.put c)) (round'.run (F'.put c)))
    (hL : L []) (hL₁ : ∀ u s, L₁ u → L s → L (u ++ s)) (hD : ∀ u s, L₁ u → D s → D (u ++ s))
    (c : Lookahead σ) :
    Deepens F F' L D c ((Rule.repeatWhile again round lt).run (F.put c))
      ((Rule.repeatWhile again' round' lt').run (F'.put c)) := by
  -- each round leaves a smaller state
  induction hn : size (F.put c) using Nat.strongRecOn generalizing c with
  | ind n ih =>
    rw [Rule.run_repeatWhile, Rule.run_repeatWhile, ha]
    apply ite
    · intro hc
      apply bind (hround c)
      intro u m _ hu hm
      have less : size (F.put m) < n := hn ▸ lt _ _ hc hm
      exact (ih _ less m rfl).mono (fun s => hL₁ u s hu) fun s => hD u s hu
    · intro _
      exact of_ok hL

end Bind

end Deepens

end Deepens

/-! ## Rules of a filter -/

namespace FilterRule

open TokenRule (StaysIn skip staysIn_skip staysIn_symbol staysIn_item run_terminal)

variable {σ : Type} [TokenSource σ] {depth depth' limit limit' : Nat} {L D : List Char → Prop}
  {c : Lookahead σ}

/-- A rule on tokens that stays in a language whatever the limit does not nest too deep. -/
theorem deepens_onTokens {rule : TokenRule σ Unit} (h : ∀ limit, StaysIn limit L c rule) :
    Deepens (.parser depth limit) (.parser depth' limit') L D c
      ((onTokens rule).run ⟨c, depth, limit⟩) ((onTokens rule).run ⟨c, depth', limit'⟩) := by
  intro hc
  obtain ⟨text, m, v, hr, hv, ht⟩ := h limit hc
  refine ⟨text, m, v, hr, holds_onTokens hv, ?_, ?_⟩
  · rintro rfl
    have hv' : Verdict.fits.Holds (.tokens limit') m (rule.run c) := hv
    exact ⟨ht, holds_onTokens hv'⟩
  · rintro rfl
    -- the error would name any other limit as well
    have hv : rule.run c = .error (.nestingTooDeep limit m.current.position m.current.span) m := hv
    obtain ⟨_, n, w, -, hw, -⟩ := h (limit + 1) hc
    rw [hv] at hw
    cases w with
    | fits => cases hw
    | lacks => cases hw
    | stuck =>
      obtain ⟨_, _, _, hw⟩ := hw
      cases hw
    | tooDeep =>
      have levels := (EStateM.Result.error.inj hw).1
      simp at levels

theorem deepens_nested {rule rule' : Unit → FilterRule σ Unit}
    (h : Deepens (.parser (depth + 1) limit) (.parser (depth' + 1) limit') L D c
      ((rule ()).run ⟨c, depth + 1, limit⟩) ((rule' ()).run ⟨c, depth' + 1, limit'⟩)) :
    Deepens (.parser depth limit) (.parser depth' limit') L D c
      ((nested rule).run ⟨c, depth, limit⟩) ((nested rule').run ⟨c, depth', limit'⟩) := by
  intro hc
  obtain ⟨text, m, v, hr, hv, hfits, hdeep⟩ := h hc
  refine ⟨text, m, v, hr, holds_nested hv, ?_, ?_⟩
  · intro h
    exact ⟨(hfits h).1, holds_nested (hfits h).2⟩
  · intro h
    exact ⟨(hdeep h).1, fun hk => holds_nested ((hdeep h).2 hk)⟩

section Inside

variable [SpellingSource σ] {filter filter' : FilterRule σ Unit} {h : filter.Consumes}
  {h' : filter'.Consumes} {levels : Nat}
  (hf : ∀ c, Deepens (.parser depth limit) (.parser depth' limit') (Filter levels) (Opened levels)
    c (filter.run ⟨c, depth, limit⟩) (filter'.run ⟨c, depth', limit'⟩))
include hf

/-- A list of filters nests too deep behind those that are closed. -/
theorem deepens_filterlist (c : Lookahead σ) :
    Deepens (.parser depth limit) (.parser depth' limit') (Filters levels) (OpenedInList levels) c
      ((filterlist filter h).run ⟨c, depth, limit⟩)
      ((filterlist filter' h').run ⟨c, depth', limit'⟩) := by
  have round (c : Lookahead σ) : Deepens (.parser depth limit) (.parser depth' limit')
      (Filter levels) (OpenedInList levels) c (filter.run ⟨c, depth, limit⟩)
      (filter'.run ⟨c, depth', limit'⟩) :=
    (hf c).mono (fun _ hu => hu) fun _ hs => hs.inList
  apply Deepens.bind (round c)
  intro u m _ hu _
  have loop : Deepens (.parser depth limit) (.parser depth' limit')
      (fun s => s = [] ∨ Filters levels s) (OpenedInList levels) m
      ((Rule.repeatWhile (fun p => p.cursor.kind = .lparen) filter fun p p' _ => h p () p').run
        ⟨m, depth, limit⟩)
      ((Rule.repeatWhile (fun p => p.cursor.kind = .lparen) filter' fun p p' _ => h' p () p').run
        ⟨m, depth', limit'⟩) := by
    apply Deepens.repeatWhile (.parser depth limit) (.parser depth' limit') (fun _ => rfl) round
    · exact .inl rfl
    · exact fun u s hu hs => .inr (.prepend hu hs)
    · exact fun u s hu hs => .cons hu hs
  exact loop.mono (fun s hs => .prepend hu hs) fun s hs => .cons hu hs

/-- What is read behind an operator is inside one more filter. -/
theorem deepens_filtercomp (c : Lookahead σ) :
    Deepens (.parser depth limit) (.parser depth' limit') (Component levels)
      (fun s => Opened (levels + 1) ('(' :: s)) c
      ((filtercomp filter h).run ⟨c, depth, limit⟩)
      ((filtercomp filter' h').run ⟨c, depth', limit'⟩) := by
  have operator {ch : Char} {D : List Char → Prop} (hch : c.current.Spells ch) :
      Deepens (.parser depth limit) (.parser depth' limit') (fun s => s = [ch]) D c
        ((onTokens skip).run ⟨c, depth, limit⟩) ((onTokens skip).run ⟨c, depth', limit'⟩) :=
    deepens_onTokens fun _ => staysIn_skip hch rfl
  simp only [run_filtercomp]
  refine .ite (fun hk => .of_spelled ?_ fun ch hch => ?_) fun _ =>
    .ite (fun hk => .of_spelled ?_ fun ch hch => ?_) fun _ => ?_
  · rcases hk with hk | hk <;> rw [hk] <;> decide
  · apply Deepens.bind (operator hch)
    rintro _ m - rfl -
    apply (deepens_filterlist hf m).mono
    · intro s hs
      rcases hk with hk | hk
      · cases hch.eq_symbol hk rfl
        exact .and hs
      · cases hch.eq_symbol hk rfl
        exact .or hs
    · intro s hs
      rcases hk with hk | hk
      · exact hs.opened (.inl (hch.eq_symbol hk rfl))
      · exact hs.opened (.inr (hch.eq_symbol hk rfl))
  · rw [hk]
    decide
  · cases hch.eq_symbol hk rfl
    apply Deepens.bind (operator hch)
    rintro _ m - rfl -
    exact (hf m).mono (fun s hs => .not hs) fun s hs => .negation hs
  · exact (deepens_onTokens fun _ => staysIn_item c).mono (fun s hs => .item hs) fun _ hs => hs

theorem deepens_parenthesized (c : Lookahead σ) :
    Deepens (.parser depth limit) (.parser depth' limit') (Filter (levels + 1))
      (Opened (levels + 1)) c ((parenthesized filter h).run ⟨c, depth, limit⟩)
      ((parenthesized filter' h').run ⟨c, depth', limit'⟩) := by
  apply Deepens.bind (deepens_onTokens fun _ => staysIn_symbol '(' rfl rfl c)
  rintro _ m - rfl -
  apply Deepens.bind (deepens_filtercomp hf m)
  intro s n _ hs _
  apply (deepens_onTokens fun _ => staysIn_symbol ')' rfl rfl n).mono
  · rintro v rfl
    exact .mk hs
  · exact fun _ hs => hs

end Inside

/-- A filter of too few levels nests too deep where one of one more level wants a parenthesis. -/
theorem deepens_within [SpellingSource σ] (levels depth depth' : Nat) (c : Lookahead σ) :
    Deepens (.parser depth limit) (.parser depth' limit') (Filter levels) (Opened levels) c
      ((within levels).val.run ⟨c, depth, limit⟩)
      ((within (levels + 1)).val.run ⟨c, depth', limit'⟩) := by
  induction levels generalizing depth depth' c with
  | zero =>
    -- the run stops in front of the token, whatever it is, and the other one looks at it
    refine fun _ => ⟨[], c, .tooDeep, .nil c, rfl, nofun, fun _ => ⟨.outermost, ?_⟩⟩
    intro hk
    have refused : (Verdict.lacks (.terminal .lparen)).Holds (.tokens limit') c
        ((TokenRule.terminal .lparen).run c) := by
      rw [run_terminal, if_neg hk]
      rfl
    have body : (Verdict.lacks (.terminal .lparen)).Holds (.parser (depth' + 1) limit') c
        ((parenthesized (within 0).val (within 0).property).run ⟨c, depth' + 1, limit'⟩) :=
      (holds_onTokens refused).bind nofun _
    show Verdict.Holds _ c
      ((nested fun _ => parenthesized (within 0).val (within 0).property).run _) _
    exact holds_nested body
  | succ levels ih =>
    show Deepens _ _ _ _ c
      ((nested fun _ => parenthesized (within levels).val (within levels).property).run _)
      ((nested fun _ => parenthesized (within (levels + 1)).val
        (within (levels + 1)).property).run _)
    exact deepens_nested (deepens_parenthesized (ih (depth + 1) (depth' + 1)) c)

end FilterRule

/-! ## Answers -/

section Answers

variable {σ ι : Type} [TokenSource σ] [SpellingSource σ]
  {limit reported position : Nat} {span : Span}

/-- Where filters nest too deep the limit is reached, and a token that does not open one more is
wrong there with one more level, too. -/
theorem exists_opened {s : σ} {c : Lookahead σ} (hc : c.Heads s)
    (h : outcome (recognize limit s) = .error (.nestingTooDeep reported position span)) :
    ∃ (u : List Char) (m : Lookahead σ), Reads c u m ∧ Opened limit u ∧
      ParseError.nestingTooDeep reported position span =
        .nestingTooDeep limit m.current.position m.current.span ∧
      (m.kind ≠ .lparen → outcome (recognize (limit + 1) s) =
        .error (.unexpected (.terminal .lparen) m.current)) := by
  have deepens : Deepens (.parser 0 limit) (.parser 0 (limit + 1)) (Filter limit) (Opened limit) c
      ((FilterRule.within limit).val.run ⟨c, 0, limit⟩)
      ((FilterRule.within (limit + 1)).val.run ⟨c, 0, limit + 1⟩) :=
    FilterRule.deepens_within limit 0 0 c
  obtain ⟨u, m, v, hr, hv, -, hdeep⟩ := deepens (SpellingSource.isSpelled hc.next_eq)
  have ha := hv.answers hc
  rw [h] at ha
  obtain ⟨rfl, -⟩ := ha.of_tooDeep
  obtain ⟨opened, hlacks⟩ := hdeep rfl
  exact ⟨u, m, hr, opened, Except.error.inj ha, fun hk => (hlacks hk).answers hc⟩

/-- The error `e` is that an input nests deeper than `limit`: in front of what it is about `limit`
filters are open, and as many parentheses. It is about the parenthesis of one more, or about what
the answer `deeper` refuses because it is none. -/
def NestsTooDeep (M : Measure ι) (limit : Nat) (input : List ι) (e : ParseError)
    (deeper : Except ParseError Unit) : Prop :=
  ∃ (before found after : List ι) (text : List Char), input = before ++ found ++ after ∧
    e.IsAbout M before found after ∧ M.octets before = Utf8.encodeAll text ∧
    Opened limit text ∧ text.count '(' = text.count ')' + limit ∧
    (M.octets found = Utf8.encodeAll ['('] ∨
      ∃ t, deeper = .error (.unexpected (.terminal .lparen) t) ∧ t.IsAbout M before found after)

theorem Accounts.nestsTooDeep {M : Measure ι} {stand : List ι → List ι → σ} {input : List ι}
    (h : Accounts M stand) (hM : M.Additive) (he : outcome (recognize limit (stand [] input)) =
      .error (.nestingTooDeep reported position span)) :
    reported = limit ∧ NestsTooDeep M limit input (.nestingTooDeep reported position span)
      (outcome (recognize (limit + 1) (stand [] input))) := by
  obtain ⟨c, hc⟩ | ⟨e', s, hs⟩ := Lookahead.heads_or_error (stand [] input)
  swap
  · cases he.symm.trans (recognize_of_error hs)
  obtain ⟨u, m, hr, opened, place, hdeeper⟩ := exists_opened hc he
  have spelled : m.current.IsSpelled := hr.isSpelled (SpellingSource.isSpelled hc.next_eq)
  have texts : ∀ (t : Token) ch, t.Spells ch → Utf8.encodeAll t.text.toList = Utf8.encode ch := by
    intro t ch ht
    rw [ht.toList_text]
    exact List.append_nil _
  obtain ⟨before, rest, rfl, hbefore, hm⟩ := h.exists_passed hM texts hr hc
  rw [List.nil_append] at hm
  obtain ⟨found, after, rfl, about, -⟩ := h.of_ok hm.next_eq
  have reports : (ParseError.nestingTooDeep reported position span).Reports m.current := by
    rw [place]
    exact ⟨rfl, rfl, nofun, nofun⟩
  obtain ⟨rfl, -, -⟩ := ParseError.nestingTooDeep.inj place
  refine ⟨rfl, before, found, after, u, by rw [List.append_assoc], reports.isAbout about, hbefore,
    opened, opened.count_eq, ?_⟩
  by_cases hk : m.kind = .lparen
  · left
    obtain hend | ⟨ch, hch⟩ := spelled
    · rw [Lookahead.kind, hend] at hk
      cases hk
    · cases hch.eq_symbol hk rfl
      rw [← about.text hch.kind_ne_eof, hch.toList_text]
  · exact .inr ⟨m.current, hdeeper hk, about⟩

end Answers

/-- **Where filters nest too deep.** The error names the limit, and in front of its place as many
filters are open as the limit allows. At that place there is the parenthesis of one more; or
whatever is there in place of one is refused there if one more level is allowed. -/
theorem parse_nests_too_deep (limit : Nat) :
    (∀ (text : String) mode reported position span,
      parse text ⟨mode, limit⟩ = .error (.nestingTooDeep reported position span) →
      reported = limit ∧ NestsTooDeep (.ofMode mode) limit text.toList
        (.nestingTooDeep reported position span) (parse text ⟨mode, limit + 1⟩)) ∧
    ∀ bytes reported position span,
      parseBytes bytes limit = .error (.nestingTooDeep reported position span) →
      reported = limit ∧ NestsTooDeep .raw limit bytes (.nestingTooDeep reported position span)
        (parseBytes bytes (limit + 1)) := by
  constructor
  · intro text mode reported position span h
    cases mode with
    | codePoint => exact CharCursor.accounts.nestsTooDeep (Measure.additive_ofMode .codePoint) h
    | byte => exact ByteCursor.accounts_text.nestsTooDeep (Measure.additive_ofMode .byte) h
  · intro bytes reported position span h
    exact ByteCursor.accounts_raw.nestsTooDeep Measure.additive_raw h

/-- A letter behind a negation, where one level is allowed. -/
theorem parse_nests_too_deep_letter :
    parse "(!x)" ⟨.codePoint, 1⟩ = .error (.nestingTooDeep 1 2 ⟨2, 3⟩) ∧
      ∃ before found after text, "(!x)".toList = before ++ found ++ after ∧ before.length = 2 ∧
        Utf8.encodeAll before = Utf8.encodeAll text ∧ Opened 1 text := by
  have deep : parse "(!x)" ⟨.codePoint, 1⟩ = .error (.nestingTooDeep 1 2 ⟨2, 3⟩) := by
    decide +kernel
  obtain ⟨-, before, found, after, text, split, about, octets, opened, -, -⟩ :=
    (parse_nests_too_deep 1).1 _ _ _ _ _ deep
  exact ⟨deep, before, found, after, text, split, (about.position (by decide)).symm, octets, opened⟩

/-- The place where filters nest too deep need not be a parenthesis. -/
theorem not_lparen_of_nestingTooDeep :
    ¬∀ (limit : Nat) (text : String) (reported position : Nat) (span : Span),
      parse text ⟨.codePoint, limit⟩ = .error (.nestingTooDeep reported position span) →
      text.toUTF8.data.toList.extract span.start span.stop = "(".toUTF8.data.toList := by
  intro h
  have letter := h 1 "(!x)" 1 2 ⟨2, 3⟩ (by decide +kernel)
  exact absurd letter (by decide +kernel)

end LdapFilter
