import LdapFilter.Proofs.Factored
import LdapFilter.Proofs.Viability

/-!
# The rules of an item stay inside the grammar

Every rule on tokens stays in the language of its construct: an attribute, a value, or what stands
between the colons of an extensible match. For each rule a text is named that completes what it
may have read, so the grammar never leaves a rule in the middle of a construct without a way to
its end.
-/

namespace LdapFilter.TokenRule

open Grammar

variable {σ : Type} [TokenSource σ] [SpellingSource σ] {limit : Nat} {L : List Char → Prop}
  {c : Lookahead σ}

/-- That a rule on tokens, run from `c`, stays in a language. -/
abbrev StaysIn (limit : Nat) (L : List Char → Prop) (c : Lookahead σ) (rule : TokenRule σ Unit) :
    Prop :=
  Stays (.tokens limit) L L c (rule.run c)

omit [SpellingSource σ] in
theorem staysIn_pure (h : L []) : StaysIn limit L c (pure ()) :=
  .of_ok h

omit [SpellingSource σ] in
theorem staysIn_refuse {construct : Construct} (ch : Char) {rest : List Char}
    (hb : construct.Begins ch) (h : L (ch :: rest)) : StaysIn limit L c (refuse construct) :=
  .of_lacks hb h

omit [SpellingSource σ] in
theorem staysIn_mono {rule : TokenRule σ Unit} {L₁ : List Char → Prop}
    (h : StaysIn limit L₁ c rule) (hL : ∀ u, L₁ u → L u) : StaysIn limit L c rule :=
  h.mono hL hL

theorem staysIn_bind {rule : TokenRule σ Unit} {next : Unit → TokenRule σ Unit}
    {L₁ : List Char → Prop} (h : StaysIn limit L₁ c rule) (hL : ∀ u, L₁ u → ∃ w, L (u ++ w))
    (hn : ∀ u m, Reads c u m → L₁ u → StaysIn limit (fun s => L (u ++ s)) m (next ())) :
    StaysIn limit L c (rule >>= next) :=
  .bind h hL hL fun u m hr hu _ => hn u m hr hu

theorem staysIn_take_bind {next : Token → TokenRule σ Unit} {ch : Char}
    (hch : c.current.Spells ch) (hL : ∃ rest, L (ch :: rest))
    (h : ∀ m, c.Takes m → StaysIn limit (fun s => L (ch :: s)) m (next c.current)) :
    StaysIn limit L c (take >>= next) := by
  refine .of_take hch hL (fun e s hs => ?_) fun m hm => ?_
  · rw [Rule.run_bind, run_take_of_error hs]
  · rw [Rule.run_bind, run_take_of_takes hm]
    exact h m hm

theorem staysIn_skip_bind {next : TokenRule σ Unit} {ch : Char} (hch : c.current.Spells ch)
    (hL : ∃ rest, L (ch :: rest))
    (h : ∀ m, c.Takes m → StaysIn limit (fun s => L (ch :: s)) m next) :
    StaysIn limit L c (skip >>= fun _ => next) := by
  simp only [skip, bind_assoc, pure_bind]
  exact staysIn_take_bind hch hL h

/-- Taking a token reads its character. -/
theorem staysIn_skip {ch : Char} (hch : c.current.Spells ch) (hL : L [ch]) :
    StaysIn limit L c skip :=
  staysIn_take_bind hch ⟨[], hL⟩ fun _ _ => staysIn_pure hL

theorem staysIn_terminal {kind : Terminal} (ch : Char) (hch : Terminal.ofChar? ch = some kind)
    (c : Lookahead σ) :
    StaysIn limit (fun s => ∃ ch, Terminal.ofChar? ch = some kind ∧ s = [ch]) c
      (terminal kind) := by
  simp only [StaysIn, run_terminal]
  apply Stays.ite
  · intro hk
    apply Stays.of_spelled
    · rw [hk]
      exact fun he => Terminal.ofChar?_ne_eof ch (he ▸ hch)
    · intro d hd
      exact staysIn_skip hd ⟨d, hk ▸ hd.kind, rfl⟩
  · intro _
    exact staysIn_refuse ch hch ⟨ch, hch, rfl⟩

/-- A terminal of a single character reads that character. -/
theorem staysIn_symbol {kind : Terminal} (ch : Char) (hch : Terminal.ofChar? ch = some kind)
    (hs : kind.symbol? = some ch) (c : Lookahead σ) :
    StaysIn limit (fun s => s = [ch]) c (terminal kind) := by
  apply staysIn_mono (staysIn_terminal ch hch c)
  rintro u ⟨d, hd, rfl⟩
  rw [Terminal.eq_symbol_of_ofChar? hd hs]

/-- A loop stays in a language that has the empty text, and is kept when a token that fits and
what is read after it are put in front. -/
theorem staysIn_many {p : Terminal → Bool} {p_eof : p .eof = false}
    {after : Token → TokenRule σ Unit}
    (hround : ∀ (c : Lookahead σ) ch, c.current.Spells ch → p c.kind → ∃ R : List Char → Prop,
      (∃ u, R u) ∧ (∀ m, StaysIn limit R m (after c.current)) ∧
        ∀ u s, R u → L s → L (ch :: (u ++ s)))
    (hL : L []) (c : Lookahead σ) : StaysIn limit L c (many p after p_eof) := by
  refine .repeatWhile (.tokens limit) ?_ hL hL c
  intro c hc hs
  rcases hs with he | ⟨ch, hch⟩
  · have he : c.kind = .eof := he
    simp only [he, p_eof] at hc
    cases hc
  · obtain ⟨R, ⟨u, hu⟩, hafter, hclosed⟩ := hround c ch hch hc
    have front (v s : List Char) (hv : ∃ u, R u ∧ v = ch :: u) (hs : L s) : L (v ++ s) := by
      obtain ⟨u, hu, rfl⟩ := hv
      exact hclosed u s hu hs
    refine ⟨fun v => ∃ u, R u ∧ v = ch :: u, _, ?_, fun _ h => h, front, front⟩
    apply staysIn_take_bind hch ⟨u, u, hu, rfl⟩
    intro m _
    exact staysIn_mono (hafter m) fun u hu => ⟨u, hu, rfl⟩

/-- A loop without anything between its tokens reads characters of one kind. -/
theorem staysIn_many_pure {p : Terminal → Bool} {p_eof : p .eof = false} {P : Char → Prop}
    (hp : ∀ {t : Token} {ch}, t.Spells ch → p t.kind → P ch) (c : Lookahead σ) :
    StaysIn limit (fun s => ∀ ch ∈ s, P ch) c (many p (fun _ => pure ()) p_eof) := by
  refine staysIn_many ?_ (fun _ h => nomatch h) c
  intro c ch hch hc
  refine ⟨fun s => s = [], ⟨[], rfl⟩, fun m => staysIn_pure rfl, ?_⟩
  rintro u s rfl hs
  exact List.forall_mem_cons.2 ⟨hp hch hc, hs⟩

theorem staysIn_hex (c : Lookahead σ) :
    StaysIn limit (fun s => ∃ ch, IsHexDigit ch ∧ s = [ch]) c hex := by
  simp only [StaysIn, run_hex]
  apply Stays.ite
  · intro hx
    apply Stays.of_spelled
    · intro hk
      rw [Token.isHexDigit, show c.current.kind = .eof from hk] at hx
      cases hx
    · intro ch hch
      exact staysIn_skip hch ⟨ch, hch.isHexDigit_iff.1 hx, rfl⟩
  · intro _
    exact staysIn_refuse '0' (.inl rfl) ⟨'0', .inl rfl, rfl⟩

theorem staysIn_value (c : Lookahead σ) : StaysIn limit Value c value := by
  refine staysIn_many (fun c ch hch hc => ?_) .nil c
  by_cases hk : c.current.kind = .esc
  · cases hch.eq_symbol hk rfl
    refine ⟨fun s => ∃ high low, IsHexDigit high ∧ IsHexDigit low ∧ s = [high, low],
      ⟨_, '0', '0', .inl rfl, .inl rfl, rfl⟩, fun m => ?_, ?_⟩
    · show StaysIn limit _ m (if c.current.kind = .esc then (hex >>= fun _ => hex) else pure ())
      rw [if_pos hk]
      refine staysIn_bind (staysIn_hex m) ?_ ?_
      · rintro u ⟨high, hh, rfl⟩
        exact ⟨['0'], high, '0', hh, .inl rfl, rfl⟩
      · rintro u n - ⟨high, hh, rfl⟩
        refine staysIn_mono (staysIn_hex n) ?_
        rintro u ⟨low, hl, rfl⟩
        exact ⟨high, low, hh, hl, rfl⟩
    · rintro u s ⟨high, low, hh, hl, rfl⟩ hs
      exact .escaped hh hl hs
  · refine ⟨fun s => s = [], ⟨[], rfl⟩, fun m => ?_, ?_⟩
    · show StaysIn limit _ m (if c.current.kind = .esc then (hex >>= fun _ => hex) else pure ())
      rw [if_neg hk]
      exact staysIn_pure rfl
    · rintro u s rfl hs
      have hn : c.current.kind.isNormal := by simpa [Lookahead.kind, hk] using hc
      exact .normal ((Terminal.isNormal_iff hch.kind).1 hn) hs

theorem staysIn_number (c : Lookahead σ) : StaysIn limit Number c number := by
  simp only [StaysIn, run_number]
  refine .ite (fun hk => .of_spelled (by rw [hk]; decide) fun ch hch => ?_)
    fun _ => staysIn_refuse '0' rfl .zero
  have hd : ch.isDigit := hch.kind_eq_digit_iff.1 hk
  apply staysIn_take_bind hch
  · by_cases h0 : ch = '0'
    · exact ⟨[], h0 ▸ .zero⟩
    · exact ⟨[], .positive hd h0 fun _ h => nomatch h⟩
  · intro m _
    split
    · next ht =>
      cases hch.text_eq_zero_iff.1 ht
      exact staysIn_pure .zero
    · next ht =>
      have h0 : ch ≠ '0' := fun h0 => ht (hch.text_eq_zero_iff.2 h0)
      have digits : StaysIn limit (fun s => ∀ ch ∈ s, ch.isDigit) m digits := by
        apply staysIn_many_pure
        intro t ch h hk
        exact h.kind_eq_digit_iff.1 (of_decide_eq_true hk)
      apply staysIn_mono digits
      intro u hu
      exact .positive hd h0 hu

theorem staysIn_numericoid (c : Lookahead σ) : StaysIn limit Numericoid c numericoid := by
  apply staysIn_bind (staysIn_number c)
  · intro u hu
    exact ⟨[], by simpa using .number hu⟩
  intro u m _ hu
  -- what the loop reads goes on from any number, so that a round can go on from its own
  suffices h : StaysIn limit (fun s => ∀ n, Number n → Numericoid (n ++ s)) m _ from
    staysIn_mono h fun s hs => hs u hu
  apply staysIn_many
  · intro c ch hch hk
    refine ⟨Number, ⟨['0'], .zero⟩, staysIn_number, ?_⟩
    intro v s hv hs n hn
    cases hch.eq_symbol (of_decide_eq_true hk) rfl
    exact .dot hn (hs v hv)
  · intro n hn
    simpa using .number hn

theorem staysIn_keychars (c : Lookahead σ) :
    StaysIn limit (fun s => ∀ ch ∈ s, IsKeychar ch) c keychars :=
  staysIn_many_pure (fun h hk => (Terminal.isKeychar_iff h.kind).1 hk) c

theorem staysIn_option (c : Lookahead σ) :
    StaysIn limit (fun s => s ≠ [] ∧ ∀ ch ∈ s, IsKeychar ch) c option := by
  have staysIn_keychar : StaysIn limit (fun s => ∃ ch, IsKeychar ch ∧ s = [ch]) c keychar := by
    simp only [StaysIn, run_keychar]
    apply Stays.ite
    · intro hk
      apply Stays.of_spelled
      · intro he
        rw [he] at hk
        cases hk
      · intro ch hch
        exact staysIn_skip hch ⟨ch, (Terminal.isKeychar_iff hch.kind).1 hk, rfl⟩
    · intro _
      exact staysIn_refuse '0' (.inr (.inl rfl)) ⟨'0', .inr (.inl rfl), rfl⟩
  apply staysIn_bind staysIn_keychar
  · rintro u ⟨ch, hch, rfl⟩
    exact ⟨[], by simp, by simpa using hch⟩
  · rintro u m - ⟨ch, hch, rfl⟩
    apply staysIn_mono (staysIn_keychars m)
    intro s hs
    constructor
    · simp
    · exact List.forall_mem_cons.2 ⟨hch, hs⟩

/-- The rule of a name does not read the marker unless it begins like it. -/
theorem staysIn_oid (c : Lookahead σ) :
    StaysIn limit (fun s => Oid s ∧ (Marker s → c.current.isLetter 'd')) c oid := by
  simp only [StaysIn, run_oid]
  refine .ite (fun _ => ?_) fun _ => .ite (fun _ => ?_) fun _ => ?_
  · refine staysIn_bind (staysIn_terminal 'a' rfl c) ?_ ?_
    · rintro u ⟨ch, hch, rfl⟩
      exact ⟨[], .descr (.mk (Terminal.isAlpha_of_ofChar? hch) nofun), nofun⟩
    · rintro u m hr ⟨ch, hch, rfl⟩
      refine staysIn_mono (staysIn_keychars m) fun s hs => ?_
      refine ⟨.descr (.mk (Terminal.isAlpha_of_ofChar? hch) hs), fun hm => ?_⟩
      cases hr with
      | cons label => cases hm with | mk hd _ => exact label.isLetter_d_iff.2 hd
  · refine staysIn_mono (staysIn_numericoid c) fun s hs => ?_
    exact ⟨.numericoid hs, fun hm => absurd hm hs.not_marker⟩
  · have zero : Oid ['0'] ∧ (Marker ['0'] → c.current.isLetter 'd') :=
      ⟨.numericoid (.number .zero), nofun⟩
    exact staysIn_refuse '0' (.inr rfl) zero

theorem staysIn_attr (c : Lookahead σ) : StaysIn limit Attr c attr := by
  apply staysIn_bind (staysIn_oid c)
  · intro u hu
    exact ⟨[], .mk hu.1 .nil⟩
  intro u m _ hu
  suffices h : StaysIn limit Options m _ from staysIn_mono h fun s hs => .mk hu.1 hs
  refine staysIn_many ?_ .nil m
  intro c ch hch hk
  refine ⟨_, ⟨['0'], ?_⟩, staysIn_option, ?_⟩
  · exact ⟨by simp, by simpa using .inr (.inl rfl)⟩
  · rintro v s ⟨hv, hkc⟩ hs
    cases hch.eq_symbol (of_decide_eq_true hk) rfl
    exact .cons hv hkc hs

/-- The rest of a name of which `before` was read. It may not be the marker, where a colon follows
it. -/
theorem staysIn_matchingRuleTail {required : Bool} (before : List Char) (hb : Keystring before)
    {c : Lookahead σ}
    (hm : ∀ u m, Reads c u m → m.kind = .colon → required → ¬Marker (before ++ u)) :
    StaysIn limit (fun s => DnAndRule required (before ++ s)) c matchingRuleTail := by
  have name {u : List Char} (hu : ∀ ch ∈ u, IsKeychar ch) : Oid (before ++ u) := by
    cases hb with
    | mk ha hr =>
      exact .descr (.mk ha (List.forall_mem_append.2 ⟨hr, hu⟩))
  refine staysIn_bind (staysIn_keychars c) (fun u hu => ?_) fun u m hr hu => ?_
  · -- one more digit makes a name that is not the marker
    have digit : Oid (before ++ (u ++ ['0'])) :=
      name (List.forall_mem_append.2 ⟨hu, by simpa using .inr (.inl rfl)⟩)
    have other : ¬Marker (before ++ (u ++ ['0'])) := by
      simpa using not_marker_append_zero (before ++ u)
    exact ⟨['0', ':'], by simpa using DnAndRule.rule digit fun _ => other⟩
  · have colon (v : List Char) (hv : v = [':']) :
        ∃ w, DnAndRule required (before ++ (u ++ (v ++ w))) := by
      subst hv
      by_cases hmark : Marker (before ++ u)
      · exact ⟨['0', ':'], by
          simpa using DnAndRule.both hmark (.numericoid (.number .zero))⟩
      · exact ⟨[], by simpa using DnAndRule.rule (name hu) fun _ => hmark⟩
    refine .weaken (staysIn_symbol ':' rfl rfl m) ?_ colon colon
    rintro v n hr' rfl
    cases hr' with
    | cons label =>
      simpa using DnAndRule.rule (name hu) (hm u m hr (label.kind_eq rfl))

/-- What the rule of a name reads, with the colon after it, or nothing where that is allowed. -/
theorem staysIn_matchingRule {required : Bool} {L : List Char → Prop} (c : Lookahead σ)
    (hnone : ¬required → L [])
    (hoid : ∀ s, Oid s → (Marker s → c.current.isLetter 'd') → L (s ++ [':'])) :
    StaysIn limit L c (matchingRule required) := by
  simp only [StaysIn, run_matchingRule]
  refine .ite (fun _ => ?_) fun hk => staysIn_pure (hnone fun h => hk (by simp [h]))
  refine staysIn_bind (staysIn_oid c) (fun u hu => ⟨[':'], hoid u hu.1 hu.2⟩) fun u m _ hu => ?_
  refine staysIn_mono (staysIn_symbol ':' rfl rfl m) ?_
  rintro v rfl
  exact hoid u hu.1 hu.2

/-- Between the colons of an extensible match, the letters `dn` before a colon are the marker and
every other name is a rule. -/
theorem staysIn_dnAndRule (required : Bool) (c : Lookahead σ) :
    StaysIn limit (DnAndRule required) c (dnAndRule required) := by
  have zero : Oid ['0'] := .numericoid (.number .zero)
  simp only [StaysIn, run_dnAndRule]
  refine .ite (fun hd => .of_spelled (kind_ne_eof_of_isLetter hd) fun d hcd => ?_) fun hd => ?_
  · have isD : d = 'd' ∨ d = 'D' := hcd.isLetter_d_iff.1 hd
    have lead : Keystring [d] := .mk (by obtain rfl | rfl := isD <;> rfl) nofun
    refine staysIn_skip_bind hcd ⟨[':'], .rule (.descr lead) nofun⟩ fun m _ => ?_
    simp only [StaysIn, run_afterD]
    refine .ite (fun hn => .of_spelled (kind_ne_eof_of_isLetter hn) fun n hcn => ?_) fun hn => ?_
    · have isN : n = 'n' ∨ n = 'N' := hcn.isLetter_n_iff.1 hn
      have marker : Marker [d, n] := .mk isD isN
      have both : DnAndRule required [d, n, ':', '0', ':'] := .both marker zero
      refine staysIn_skip_bind hcn ⟨_, both⟩ fun k _ => ?_
      simp only [StaysIn, run_afterDn]
      refine .ite (fun hk => .of_spelled (by rw [hk]; decide) fun ch hch => ?_) fun hk => ?_
      · cases hch.eq_symbol hk rfl
        refine staysIn_skip_bind hch ⟨_, both⟩ fun l _ => staysIn_matchingRule l ?_ ?_
        · intro hr
          rw [Bool.not_eq_true] at hr
          exact hr ▸ .marker marker
        · exact fun s hs _ => .both marker hs
      · refine staysIn_matchingRuleTail [d, n] (.mk ?_ ?_) ?_
        · obtain rfl | rfl := isD <;> rfl
        · obtain rfl | rfl := isN <;> simpa using .inl rfl
        · -- nothing but the colon, which is not there, would leave the name at its two letters
          intro u l hr hl _ hm
          cases u with
          | nil => exact hk (hr.eq_of_nil ▸ hl)
          | cons => cases hm
    · refine staysIn_matchingRuleTail [d] lead fun u k hr _ _ hm => ?_
      cases hm with
      | mk _ isN =>
        cases hr with
        | cons label => exact hn (label.isLetter_n_iff.2 isN)
  · refine staysIn_matchingRule c ?_ ?_
    · intro hr
      rw [Bool.not_eq_true] at hr
      exact hr ▸ .none
    · exact fun s hs hm => .rule hs fun _ h => hd (hm h)

theorem staysIn_extensible (required : Bool) (c : Lookahead σ) :
    StaysIn limit (Extensible required) c (extensible required) := by
  have names : ∃ names, DnAndRule required names :=
    ⟨_, .rule (.numericoid (.number .zero)) fun _ => nofun⟩
  refine staysIn_bind (staysIn_symbol ':' rfl rfl c) ?_ ?_
  · rintro u rfl
    obtain ⟨w, hw⟩ := names
    exact ⟨w ++ ['='], .mk hw .nil⟩
  rintro u m - rfl
  refine staysIn_bind (staysIn_dnAndRule required m) (fun u hu => ⟨_, .mk hu .nil⟩)
    fun u n _ hu => ?_
  refine staysIn_bind (staysIn_symbol '=' rfl rfl n) ?_ ?_
  · rintro v rfl
    exact ⟨[], by simpa using .mk hu .nil⟩
  rintro v k - rfl
  refine staysIn_mono (staysIn_value k) fun v hv => ?_
  simpa using Extensible.mk hu hv

theorem staysIn_equality {ch : Char} {c : Lookahead σ} (hch : c.current.Spells ch)
    (hk : c.kind = .equals) : StaysIn limit ItemTail c equality := by
  cases hch.eq_symbol hk rfl
  apply staysIn_skip_bind hch ⟨_, .equality .nil .nil⟩
  intro m _
  apply staysIn_bind (staysIn_value m)
  · intro u hu
    exact ⟨[], .equality hu .nil⟩
  intro u n _ hu
  suffices h : StaysIn limit Stars n _ from staysIn_mono h fun s hs => .equality hu hs
  refine staysIn_many ?_ .nil n
  intro c ch hch hk
  refine ⟨Value, ⟨_, .nil⟩, staysIn_value, ?_⟩
  intro v s hv hs
  cases hch.eq_symbol (of_decide_eq_true hk) rfl
  exact .cons hv hs

theorem staysIn_ordering {ch : Char} {c : Lookahead σ} (hch : c.current.Spells ch)
    (hk : c.kind = .tilde ∨ c.kind = .rangle ∨ c.kind = .langle) :
    StaysIn limit ItemTail c ordering := by
  have sign : ch = '~' ∨ ch = '>' ∨ ch = '<' := by
    obtain hk | hk | hk := hk
    · exact .inl (hch.eq_symbol hk rfl)
    · exact .inr (.inl (hch.eq_symbol hk rfl))
    · exact .inr (.inr (hch.eq_symbol hk rfl))
  apply staysIn_skip_bind hch ⟨_, .ordering sign .nil⟩
  intro m _
  apply staysIn_bind (staysIn_symbol '=' rfl rfl m)
  · rintro u rfl
    exact ⟨[], .ordering sign .nil⟩
  rintro u n - rfl
  exact staysIn_mono (staysIn_value n) fun s hs => .ordering sign hs

theorem staysIn_itemTail (c : Lookahead σ) : StaysIn limit ItemTail c itemTail := by
  simp only [StaysIn, run_itemTail]
  apply Stays.ite <;> intro _
  · exact staysIn_mono (staysIn_extensible false c) fun s hs => .extensible hs
  apply Stays.ite <;> intro hk
  · refine .of_spelled ?_ fun ch hch => staysIn_ordering hch hk
    rcases hk with h | h | h <;> rw [h] <;> decide
  clear hk
  apply Stays.ite <;> intro hk
  · refine .of_spelled ?_ fun ch hch => staysIn_equality hch hk
    rw [hk]
    decide
  · exact staysIn_refuse '=' (by simp [Construct.Begins]) (.equality .nil .nil)

theorem staysIn_item (c : Lookahead σ) : StaysIn limit Item c item := by
  simp only [StaysIn, run_item]
  apply Stays.ite <;> intro _
  · apply staysIn_bind (staysIn_attr c)
    · intro u hu
      exact ⟨_, ItemTail.item hu (.equality .nil .nil)⟩
    · intro u m _ hu
      exact staysIn_mono (staysIn_itemTail m) fun s hs => hs.item hu
  · exact staysIn_mono (staysIn_extensible true c) fun s hs => hs.item_of_required

end LdapFilter.TokenRule
