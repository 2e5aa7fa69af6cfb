import LdapFilter.Proofs.Verdict

/-!
# Runs that see alike tokens

Rules look at a token in four ways only: at its kind, at whether it is a given letter, at whether
it is a hexadecimal digit, and at whether its text is a zero. Two tokens that agree in these are
`Token.Alike`. A run of a rule is decided by how the tokens look that it takes, and the one where
it stops: wherever, in whatever source, a path of alike tokens ends at an alike token, the same
rule follows it and reaches the same verdict (`Tracks`). A rule may be tracked by the rule of
another number of levels, as long as no limit is reached.
-/

namespace LdapFilter

/-- Two tokens that no rule can tell apart. -/
structure Token.Alike (t t' : Token) : Prop where
  kind : t'.kind = t.kind
  isLetter : ∀ letter, t'.isLetter letter = t.isLetter letter
  isHexDigit : t'.isHexDigit = t.isHexDigit
  zero : t'.text = "0" ↔ t.text = "0"

theorem Token.Alike.refl (t : Token) : t.Alike t :=
  ⟨rfl, fun _ => rfl, rfl, Iff.rfl⟩

theorem Token.Alike.kind_eq {σ σ' : Type} {c : Lookahead σ} {d : Lookahead σ'}
    (h : c.current.Alike d.current) : d.kind = c.kind :=
  h.kind

variable {σ σ' τ τ' : Type} [TokenSource σ] [TokenSource σ']

/-- The run from `c` with the result `result` follows a path to a verdict, and `run'` reaches that
verdict from wherever a path of alike tokens starts. A token that cannot be taken in the one has
to be one in the other, and `same` is what a verdict on the nesting needs. The token where the
nesting is too deep is not looked at; `atOnce` has to hold if it may be the first. -/
def Tracks (F : Frame σ τ) (F' : Frame σ' τ') (same atOnce : Prop) (c : Lookahead σ)
    (result : EStateM.Result ParseError τ Unit)
    (run' : Lookahead σ' → EStateM.Result ParseError τ' Unit) : Prop :=
  ∃ (ts : List Token) (m : Lookahead σ) (v : Verdict),
    Path (· = ·) c ts m ∧ v.Holds F m result ∧ (v = .stuck → m.kind ≠ .eof) ∧
    (v = .tooDeep → ts = [] → atOnce) ∧
    ∀ d m', Path (fun t' t => Token.Alike t t') d ts m' →
      (v ≠ .tooDeep → m.current.Alike m'.current) → (v = .stuck → m'.Stuck) →
      (v = .tooDeep → same) → v.Holds F' m' (run' d)

/-- Alike paths of which the ends are alike if they are empty start with alike tokens. -/
theorem Path.alike_start {c m : Lookahead σ} {d m' : Lookahead σ'} {ts : List Token}
    (h : Path (· = ·) c ts m) (h' : Path (fun t' t => Token.Alike t t') d ts m')
    (hm : ts = [] → m.current.Alike m'.current) : c.current.Alike d.current := by
  cases h with
  | nil =>
    cases h'
    exact hm rfl
  | cons label =>
    cases h' with
    | cons label' => exact label ▸ label'

/-- The tokens on a path are alike themselves. -/
theorem Path.alike_self {c m : Lookahead σ} {ts : List Token} (h : Path (· = ·) c ts m) :
    Path (fun t' t => Token.Alike t t') c ts m := by
  apply h.relabel (List.forall₂_same.2 fun t _ => rfl)
  rintro t' t u rfl rfl
  exact .refl _

namespace Tracks

variable {F : Frame σ τ} {F' : Frame σ' τ'} {same atOnce : Prop} {c : Lookahead σ}
  {result : EStateM.Result ParseError τ Unit}
  {run' run'' : Lookahead σ' → EStateM.Result ParseError τ' Unit}

theorem mono {atOnce' : Prop} (h : Tracks F F' same atOnce c result run')
    (ho : atOnce → atOnce') : Tracks F F' same atOnce' c result run' := by
  obtain ⟨ts, m, v, hp, hv, he, hdeep, ht⟩ := h
  exact ⟨ts, m, v, hp, hv, he, fun h h0 => ho (hdeep h h0), ht⟩

/-- The run that tracks may be told what the token at its start looks like, unless the first run
is too deep before it has looked at it. -/
theorem of_alike (h : Tracks F F' same False c result run'')
    (hr : ∀ d, c.current.Alike d.current → run' d = run'' d) :
    Tracks F F' same False c result run' := by
  obtain ⟨ts, m, v, hp, hv, he, hdeep, ht⟩ := h
  refine ⟨ts, m, v, hp, hv, he, hdeep, ?_⟩
  intro d m' hd hm hs hsame
  have start : c.current.Alike d.current := hp.alike_start hd fun h0 => hm fun h => hdeep h h0
  rw [hr d start]
  exact ht d m' hd hm hs hsame

theorem of_ok (h : result = .ok () (F.put c)) (h' : ∀ d, run' d = .ok () (F'.put d)) :
    Tracks F F' same atOnce c result run' := by
  refine ⟨[], c, .fits, .nil c, h, nofun, nofun, ?_⟩
  intro d m' hd _ _ _
  cases hd
  exact h' d

theorem of_lacks {construct : Construct}
    (h : result = .error (.unexpected construct c.current) (F.put c))
    (h' : ∀ d, run' d = .error (.unexpected construct d.current) (F'.put d)) :
    Tracks F F' same atOnce c result run' := by
  refine ⟨[], c, .lacks construct, .nil c, h, nofun, nofun, ?_⟩
  intro d m' hd _ _ _
  cases hd
  exact h' d

/-- A run that takes a token first is tracked by one that takes it too, and is not too deep at
once. -/
theorem of_take (rest : Lookahead σ' → EStateM.Result ParseError τ' Unit) (hc : c.kind ≠ .eof)
    (herr : ∀ e s, TokenSource.next c.source = .error e s →
      result = .error (.lexical e) (F.put ⟨s, c.current⟩))
    (herr' : ∀ d e s, TokenSource.next d.source = .error e s →
      run' d = .error (.lexical e) (F'.put ⟨s, d.current⟩))
    (htake : ∀ d m', c.current.Alike d.current → d.Takes m' → run' d = rest m')
    (h : ∀ m, c.Takes m → Tracks F F' same atOnce m result rest) :
    Tracks F F' same False c result run' := by
  obtain ⟨m, hm⟩ | ⟨e, s, hs⟩ := Lookahead.takes_or_error hc
  · obtain ⟨ts, n, v, hp, hv, he, -, ht⟩ := h m hm
    refine ⟨c.current :: ts, n, v, .cons rfl hm hp, hv, he, nofun, ?_⟩
    intro d n' hd hn hstuck hsame
    cases hd with
    | cons label taken path =>
      rw [htake d _ label taken]
      exact ht _ n' path hn hstuck hsame
  · refine ⟨[], c, .stuck, .nil c, ⟨e, s, hs, herr e s hs⟩, fun _ => hc, nofun, ?_⟩
    intro d n' hd _ hstuck _
    cases hd
    obtain ⟨e', s', hs'⟩ := hstuck rfl
    exact ⟨e', s', hs', herr' d e' s' hs'⟩

/-- A decision is tracked by a decision that alike tokens answer in the same way. -/
theorem ite {p : Prop} [Decidable p] {p' : Lookahead σ' → Prop} [DecidablePred p']
    {no : EStateM.Result ParseError τ Unit}
    {no' : Lookahead σ' → EStateM.Result ParseError τ' Unit}
    (hp : ∀ d, c.current.Alike d.current → (p' d ↔ p))
    (hyes : p → Tracks F F' same False c result run')
    (hno : ¬p → Tracks F F' same False c no no') :
    Tracks F F' same False c (if p then result else no)
      fun d => if p' d then run' d else no' d := by
  by_cases h : p
  · rw [if_pos h]
    apply (hyes h).of_alike
    intro d hd
    exact if_pos ((hp d hd).2 h)
  · rw [if_neg h]
    apply (hno h).of_alike
    intro d hd
    exact if_neg fun h' => h ((hp d hd).1 h')

section Bind

variable {size : τ → Nat} {size' : τ' → Nat} {rule : Rule τ size Unit}
  {rule' : Rule τ' size' Unit} {next : Unit → Rule τ size Unit}
  {next' : Unit → Rule τ' size' Unit}

/-- A sequence is tracked by a sequence. The first rule may have looked at the token where the
second starts, so that one must not be too deep at once. -/
theorem bind (h : Tracks F F' same atOnce c (rule.run (F.put c)) fun d => rule'.run (F'.put d))
    (hn : ∀ m, rule.run (F.put c) = .ok () (F.put m) →
      Tracks F F' same False m ((next ()).run (F.put m)) fun d => (next' ()).run (F'.put d)) :
    Tracks F F' same atOnce c ((rule >>= next).run (F.put c))
      fun d => (rule' >>= next').run (F'.put d) := by
  obtain ⟨ts, m, v, hp, hv, he, hdeep, ht⟩ := h
  by_cases hfits : v = .fits
  · subst hfits
    obtain ⟨us, n, w, hq, hw, he', hdeep', hu⟩ := hn m hv
    refine ⟨ts ++ us, n, w, hp.append hq, ?_, he', ?_, ?_⟩
    · rw [Rule.run_bind, hv]
      exact hw
    · intro h h0
      exact (hdeep' h (List.append_eq_nil_iff.1 h0).2).elim
    · intro d n' hd hn' hs hsame
      obtain ⟨m', hd, hm'⟩ := hd.split
      have hm : m.current.Alike m'.current := hq.alike_start hm' fun h0 => hn' fun h => hdeep' h h0
      have hrun : rule'.run (F'.put d) = .ok () (F'.put m') :=
        ht d m' hd (fun _ => hm) nofun nofun
      show w.Holds F' n' ((rule' >>= next').run (F'.put d))
      rw [Rule.run_bind, hrun]
      exact hu m' n' hm' hn' hs hsame
  · refine ⟨ts, m, v, hp, hv.bind hfits next, he, hdeep, ?_⟩
    intro d m' hd hm hs hsame
    exact (ht d m' hd hm hs hsame).bind hfits next'

end Bind

variable (F F') in
/-- A loop is tracked by a loop whose rounds track its own and go on where it does. -/
theorem repeatWhile {size : τ → Nat} {size' : τ' → Nat} {again : τ → Bool} {again' : τ' → Bool}
    {round : Rule τ size Unit} {round' : Rule τ' size' Unit}
    {lt : ∀ s s', again s → round.run s = .ok () s' → size s' < size s}
    {lt' : ∀ s s', again' s → round'.run s = .ok () s' → size' s' < size' s}
    (ha : ∀ c d, c.current.Alike d.current → again' (F'.put d) = again (F.put c))
    (hround : ∀ c, again (F.put c) →
      Tracks F F' same False c (round.run (F.put c)) fun d => round'.run (F'.put d))
    (c : Lookahead σ) :
    Tracks F F' same False c ((Rule.repeatWhile again round lt).run (F.put c))
      fun d => (Rule.repeatWhile again' round' lt').run (F'.put d) := by
  -- each round leaves a smaller state
  induction hn : size (F.put c) using Nat.strongRecOn generalizing c with
  | ind n ih =>
    rw [Rule.run_repeatWhile]
    by_cases hc : again (F.put c)
    · rw [if_pos hc]
      have step : Tracks F F' same False c
          ((round >>= fun _ => Rule.repeatWhile again round lt).run (F.put c))
          fun d => (round' >>= fun _ => Rule.repeatWhile again' round' lt').run (F'.put d) := by
        apply bind (hround c hc)
        intro m hm
        have less : size (F.put m) < n := hn ▸ lt _ _ hc hm
        exact ih _ less m rfl
      apply step.of_alike
      intro d hd
      rw [Rule.run_repeatWhile, if_pos ((ha c d hd).trans hc)]
    · rw [if_neg hc]
      apply of_alike (of_ok rfl fun d => rfl)
      intro d hd
      have stop : ¬again' (F'.put d) := by rwa [ha c d hd]
      rw [Rule.run_repeatWhile, if_neg stop]

end Tracks

/-! ## Rules on tokens -/

namespace TokenRule

variable {limit limit' : Nat} {same : Prop}

/-- That two rules on tokens track each other from `c` on. -/
abbrev Tracked (limit limit' : Nat) (same : Prop) (c : Lookahead σ) (rule : TokenRule σ Unit)
    (rule' : TokenRule σ' Unit) : Prop :=
  Tracks (.tokens limit) (.tokens limit') same False c (rule.run c) rule'.run

theorem tracked_pure (c : Lookahead σ) :
    Tracked limit limit' same c (pure ()) (pure () : TokenRule σ' Unit) :=
  .of_ok rfl fun _ => rfl

theorem tracked_refuse (construct : Construct) (c : Lookahead σ) :
    Tracked limit limit' same c (refuse construct) (refuse construct : TokenRule σ' Unit) :=
  .of_lacks rfl fun _ => rfl

/-- A rule that takes a token and goes on by how it looks. -/
theorem tracked_take_bind {c : Lookahead σ} {next : Token → TokenRule σ Unit}
    {next' : Token → TokenRule σ' Unit} (rest : TokenRule σ' Unit) (hc : c.kind ≠ .eof)
    (hnext : ∀ t', c.current.Alike t' → next' t' = rest)
    (h : ∀ m, c.Takes m → Tracked limit limit' same m (next c.current) rest) :
    Tracked limit limit' same c (take >>= next) (take >>= next') := by
  apply Tracks.of_take rest.run hc
  · intro e s hs
    rw [Rule.run_bind, run_take_of_error hs]
  · intro d e s hs
    rw [Rule.run_bind, run_take_of_error hs]
  · intro d m' hd taken
    rw [Rule.run_bind, run_take_of_takes taken]
    show (next' d.current).run m' = _
    rw [hnext _ hd]
  · intro m hm
    rw [Rule.run_bind, run_take_of_takes hm]
    exact h m hm

theorem tracked_skip {c : Lookahead σ} (hc : c.kind ≠ .eof) :
    Tracked limit limit' same c skip (skip : TokenRule σ' Unit) :=
  tracked_take_bind _ hc (fun _ _ => rfl) fun m _ => tracked_pure m

theorem tracked_terminal {kind : Terminal} (hk : kind ≠ .eof) (c : Lookahead σ) :
    Tracked limit limit' same c (terminal kind) (terminal kind : TokenRule σ' Unit) := by
  simp only [Tracked, funext (run_terminal _), run_terminal]
  exact .ite (fun d hd => by rw [hd.kind_eq])
    (fun hc => tracked_skip fun h => hk (hc.symm.trans h)) fun _ => tracked_refuse _ c

theorem tracked_many {p : Terminal → Bool} {p_eof : p .eof = false}
    {after : Token → TokenRule σ Unit} {after' : Token → TokenRule σ' Unit}
    (rest : Token → TokenRule σ' Unit) (hafter : ∀ t t', t.Alike t' → after' t' = rest t)
    (h : ∀ (c m : Lookahead σ), p c.kind → Tracked limit limit' same m (after c.current)
      (rest c.current)) (c : Lookahead σ) :
    Tracked limit limit' same c (many p after p_eof) (many p after' p_eof) := by
  refine Tracks.repeatWhile (.tokens limit) (.tokens limit')
    (fun c d hd => congrArg p hd.kind) (fun c hc => ?_) c
  have hk : c.kind ≠ .eof := by
    intro hk
    rw [hk, p_eof] at hc
    cases hc
  exact tracked_take_bind _ hk (hafter c.current) fun m _ => h c m hc

theorem tracked_hex (c : Lookahead σ) :
    Tracked limit limit' same c hex (hex : TokenRule σ' Unit) := by
  simp only [Tracked, funext run_hex, run_hex]
  apply Tracks.ite
  · intro d hd
    rw [hd.isHexDigit]
  · intro hc
    apply tracked_skip
    intro hk
    rw [Token.isHexDigit, show c.current.kind = .eof from hk] at hc
    cases hc
  · intro _
    exact tracked_refuse _ c

theorem tracked_value (c : Lookahead σ) :
    Tracked limit limit' same c value (value : TokenRule σ' Unit) := by
  refine tracked_many (fun t => if t.kind = .esc then (hex >>= fun _ => hex) else pure ())
    (fun t t' h => by rw [h.kind]) (fun c m _ => ?_) c
  show Tracked _ _ _ m (if c.current.kind = .esc then (hex >>= fun _ => hex) else pure ()) _
  split
  · exact .bind (tracked_hex m) fun n _ => tracked_hex n
  · exact tracked_pure m

/-- A loop without anything between its tokens. -/
theorem tracked_many_pure {p : Terminal → Bool} {p_eof : p .eof = false} (c : Lookahead σ) :
    Tracked limit limit' same c (many p (fun _ => pure ()) p_eof)
      (many p (fun _ => pure ()) p_eof : TokenRule σ' Unit) :=
  tracked_many _ (fun _ _ _ => rfl) (fun _ m _ => tracked_pure m) c

theorem tracked_number (c : Lookahead σ) :
    Tracked limit limit' same c number (number : TokenRule σ' Unit) := by
  simp only [Tracked, funext run_number, run_number]
  apply Tracks.ite
  · intro d hd
    rw [hd.kind_eq]
  · intro hc
    apply tracked_take_bind (if c.current.text = "0" then pure () else digits)
    · rw [hc]
      decide
    · intro t' ht
      simp only [ht.zero]
    · intro m _
      split
      · exact tracked_pure m
      · exact tracked_many_pure m
  · intro _
    exact tracked_refuse _ c

theorem tracked_numericoid (c : Lookahead σ) :
    Tracked limit limit' same c numericoid (numericoid : TokenRule σ' Unit) :=
  .bind (tracked_number c) fun m _ =>
    tracked_many _ (fun _ _ _ => rfl) (fun _ n _ => tracked_number n) m

theorem tracked_keychar (c : Lookahead σ) :
    Tracked limit limit' same c keychar (keychar : TokenRule σ' Unit) := by
  simp only [Tracked, funext run_keychar, run_keychar]
  apply Tracks.ite
  · intro d hd
    rw [hd.kind_eq]
  · intro hc
    apply tracked_skip
    intro hk
    rw [hk] at hc
    cases hc
  · intro _
    exact tracked_refuse _ c

theorem tracked_descr (c : Lookahead σ) :
    Tracked limit limit' same c descr (descr : TokenRule σ' Unit) :=
  .bind (tracked_terminal (by decide) c) fun m _ => tracked_many_pure m

theorem tracked_oid (c : Lookahead σ) :
    Tracked limit limit' same c oid (oid : TokenRule σ' Unit) := by
  simp only [Tracked, funext run_oid, run_oid]
  exact .ite (fun d hd => by rw [hd.kind_eq]) (fun _ => tracked_descr c) fun _ =>
    .ite (fun d hd => by rw [hd.kind_eq]) (fun _ => tracked_numericoid c) fun _ =>
      tracked_refuse _ c

theorem tracked_option (c : Lookahead σ) :
    Tracked limit limit' same c option (option : TokenRule σ' Unit) :=
  .bind (tracked_keychar c) fun m _ => tracked_many_pure m

theorem tracked_attr (c : Lookahead σ) :
    Tracked limit limit' same c attr (attr : TokenRule σ' Unit) :=
  .bind (tracked_oid c) fun m _ =>
    tracked_many _ (fun _ _ _ => rfl) (fun _ n _ => tracked_option n) m

theorem tracked_matchingRule (required : Bool) (c : Lookahead σ) :
    Tracked limit limit' same c (matchingRule required)
      (matchingRule required : TokenRule σ' Unit) := by
  simp only [Tracked, funext (run_matchingRule required), run_matchingRule]
  exact .ite (fun d hd => by rw [hd.kind_eq])
    (fun _ => .bind (tracked_oid c) fun m _ => tracked_terminal (by decide) m)
    fun _ => tracked_pure c

theorem tracked_matchingRuleTail (c : Lookahead σ) :
    Tracked limit limit' same c matchingRuleTail (matchingRuleTail : TokenRule σ' Unit) :=
  .bind (tracked_many_pure c) fun m _ => tracked_terminal (by decide) m

/-- A token that is a letter can be taken. -/
theorem kind_ne_eof_of_isLetter {t : Token} {letter : Char} (h : t.isLetter letter) :
    t.kind ≠ .eof := by
  intro hk
  rw [Token.isLetter, hk] at h
  cases h

theorem tracked_dnAndRule (required : Bool) (c : Lookahead σ) :
    Tracked limit limit' same c (dnAndRule required) (dnAndRule required : TokenRule σ' Unit) := by
  have afterDn (c : Lookahead σ) : Tracked limit limit' same c (afterDn required)
      (afterDn required : TokenRule σ' Unit) := by
    simp only [Tracked, funext (run_afterDn required), run_afterDn]
    apply Tracks.ite (fun d hd => by rw [hd.kind_eq])
    · intro hc
      have more : c.kind ≠ .eof := by
        rw [hc]
        decide
      exact .bind (tracked_skip more) fun m _ => tracked_matchingRule required m
    · intro _
      exact tracked_matchingRuleTail c
  have afterD (c : Lookahead σ) : Tracked limit limit' same c (afterD required)
      (afterD required : TokenRule σ' Unit) := by
    simp only [Tracked, funext (run_afterD required), run_afterD]
    apply Tracks.ite (fun d hd => by rw [hd.isLetter])
    · intro hc
      exact .bind (tracked_skip (kind_ne_eof_of_isLetter hc)) fun m _ => afterDn m
    · intro _
      exact tracked_matchingRuleTail c
  simp only [Tracked, funext (run_dnAndRule required), run_dnAndRule]
  apply Tracks.ite (fun d hd => by rw [hd.isLetter])
  · intro hc
    exact .bind (tracked_skip (kind_ne_eof_of_isLetter hc)) fun m _ => afterD m
  · intro _
    exact tracked_matchingRule required c

theorem tracked_extensible (ruleRequired : Bool) (c : Lookahead σ) :
    Tracked limit limit' same c (extensible ruleRequired)
      (extensible ruleRequired : TokenRule σ' Unit) :=
  .bind (tracked_terminal (by decide) c) fun m _ =>
    .bind (tracked_dnAndRule ruleRequired m) fun n _ =>
      .bind (tracked_terminal (by decide) n) fun k _ => tracked_value k

theorem tracked_equality {c : Lookahead σ} (hc : c.kind ≠ .eof) :
    Tracked limit limit' same c equality (equality : TokenRule σ' Unit) :=
  .bind (tracked_skip hc) fun m _ =>
    .bind (tracked_value m) fun n _ =>
      tracked_many _ (fun _ _ _ => rfl) (fun _ k _ => tracked_value k) n

theorem tracked_ordering {c : Lookahead σ} (hc : c.kind ≠ .eof) :
    Tracked limit limit' same c ordering (ordering : TokenRule σ' Unit) :=
  .bind (tracked_skip hc) fun m _ =>
    .bind (tracked_terminal (by decide) m) fun n _ => tracked_value n

theorem tracked_itemTail (c : Lookahead σ) :
    Tracked limit limit' same c itemTail (itemTail : TokenRule σ' Unit) := by
  simp only [Tracked, funext run_itemTail, run_itemTail]
  refine .ite (fun d hd => by rw [hd.kind_eq]) (fun _ => tracked_extensible false c) fun _ => ?_
  refine .ite (fun d hd => by rw [hd.kind_eq]) (fun hc => tracked_ordering ?_) fun _ => ?_
  · rcases hc with h | h | h <;> rw [h] <;> decide
  refine .ite (fun d hd => by rw [hd.kind_eq]) (fun hc => tracked_equality ?_) fun _ => ?_
  · rw [hc]
    decide
  exact tracked_refuse _ c

theorem tracked_item (c : Lookahead σ) :
    Tracked limit limit' same c item (item : TokenRule σ' Unit) := by
  simp only [Tracked, funext run_item, run_item]
  exact .ite (fun d hd => by rw [hd.kind_eq])
    (fun _ => .bind (tracked_attr c) fun m _ => tracked_itemTail m)
    fun _ => tracked_extensible true c

end TokenRule

/-! ## Rules of a filter -/

namespace FilterRule

open TokenRule (Tracked tracked_terminal tracked_item run_take_of_takes run_take_of_error)

variable {depth depth' limit limit' : Nat} {same atOnce : Prop}

theorem tracked_onTokens {rule : TokenRule σ Unit} {rule' : TokenRule σ' Unit} {c : Lookahead σ}
    (h : Tracked limit limit' same c rule rule') :
    Tracks (.parser depth limit) (.parser depth' limit') same False c
      ((onTokens rule).run ⟨c, depth, limit⟩)
      fun d => (onTokens rule').run ⟨d, depth', limit'⟩ := by
  obtain ⟨ts, m, v, hp, hv, he, hdeep, ht⟩ := h
  refine ⟨ts, m, v, hp, holds_onTokens hv, he, hdeep, ?_⟩
  intro d m' hd hm hs hsame
  exact holds_onTokens (ht d m' hd hm hs hsame)

/-- A rule that drops a token first looks at no other token before its second part starts. -/
theorem tracked_skip_bind {next : FilterRule σ Unit} {next' : FilterRule σ' Unit}
    {c : Lookahead σ} (hc : c.kind ≠ .eof)
    (h : ∀ m, Tracks (.parser depth limit) (.parser depth' limit') same atOnce m
      (next.run ⟨m, depth, limit⟩) fun d => next'.run ⟨d, depth', limit'⟩) :
    Tracks (.parser depth limit) (.parser depth' limit') same False c
      ((onTokens TokenRule.skip >>= fun _ => next).run ⟨c, depth, limit⟩)
      fun d => (onTokens TokenRule.skip >>= fun _ => next').run ⟨d, depth', limit'⟩ := by
  apply Tracks.of_take (fun d => next'.run ⟨d, depth', limit'⟩) hc
  · intro e s hs
    simp only [Rule.run_bind, onTokens, TokenRule.skip, run_take_of_error hs]
  · intro d e s hs
    simp only [Rule.run_bind, onTokens, TokenRule.skip, run_take_of_error hs]
  · intro d m' _ taken
    simp only [Rule.run_bind, onTokens, TokenRule.skip, run_take_of_takes taken, Rule.run_pure]
  · intro m hm
    simp only [Rule.run_bind, onTokens, TokenRule.skip, run_take_of_takes hm, Rule.run_pure]
    exact h m

theorem tracked_nested {rule : Unit → FilterRule σ Unit} {rule' : Unit → FilterRule σ' Unit}
    {c : Lookahead σ}
    (h : Tracks (.parser (depth + 1) limit) (.parser (depth' + 1) limit') same atOnce c
      ((rule ()).run ⟨c, depth + 1, limit⟩) fun d => (rule' ()).run ⟨d, depth' + 1, limit'⟩) :
    Tracks (.parser depth limit) (.parser depth' limit') same atOnce c
      ((nested rule).run ⟨c, depth, limit⟩) fun d => (nested rule').run ⟨d, depth', limit'⟩ := by
  obtain ⟨ts, m, v, hp, hv, he, hdeep, ht⟩ := h
  refine ⟨ts, m, v, hp, holds_nested hv, he, hdeep, ?_⟩
  intro d m' hd hm hs hsame
  exact holds_nested (ht d m' hd hm hs hsame)

section Inside

variable {filter : FilterRule σ Unit} {filter' : FilterRule σ' Unit} {h : filter.Consumes}
  {h' : filter'.Consumes}
  (hf : ∀ c, Tracks (.parser depth limit) (.parser depth' limit') same atOnce c
    (filter.run ⟨c, depth, limit⟩) fun d => filter'.run ⟨d, depth', limit'⟩)
  (hdeep : atOnce → ∀ p q, filter.run p ≠ .ok () q)
include hf hdeep

theorem tracked_filterlist (c : Lookahead σ) :
    Tracks (.parser depth limit) (.parser depth' limit') same atOnce c
      ((filterlist filter h).run ⟨c, depth, limit⟩)
      fun d => (filterlist filter' h').run ⟨d, depth', limit'⟩ := by
  apply Tracks.bind (hf c)
  intro m hm
  -- the loop is reached only where a filter is not too deep at once
  have late : ¬atOnce := fun h => hdeep h _ _ hm
  apply Tracks.repeatWhile (.parser depth limit) (.parser depth' limit')
  · intro c d hd
    simp only [hd.kind_eq]
  · intro c _
    exact (hf c).mono late

theorem tracked_filtercomp (c : Lookahead σ) :
    Tracks (.parser depth limit) (.parser depth' limit') same False c
      ((filtercomp filter h).run ⟨c, depth, limit⟩)
      fun d => (filtercomp filter' h').run ⟨d, depth', limit'⟩ := by
  simp only [run_filtercomp]
  refine .ite (fun d hd => by rw [hd.kind_eq]) (fun hc => ?_) fun _ => ?_
  · apply tracked_skip_bind
    · rcases hc with h | h <;> rw [h] <;> decide
    · exact tracked_filterlist hf hdeep
  refine .ite (fun d hd => by rw [hd.kind_eq]) (fun hc => ?_) fun _ => ?_
  · apply tracked_skip_bind
    · rw [hc]
      decide
    · exact hf
  exact tracked_onTokens (tracked_item c)

theorem tracked_parenthesized (c : Lookahead σ) :
    Tracks (.parser depth limit) (.parser depth' limit') same False c
      ((parenthesized filter h).run ⟨c, depth, limit⟩)
      fun d => (parenthesized filter' h').run ⟨d, depth', limit'⟩ :=
  .bind (tracked_onTokens (tracked_terminal (by decide) c)) fun m _ =>
    .bind (tracked_filtercomp hf hdeep m) fun n _ =>
      tracked_onTokens (tracked_terminal (by decide) n)

end Inside

/-- A filter of at most `levels` levels is tracked by one of more levels, and where it hits its
limit by one of as many. It takes a parenthesis before it hits its limit, unless that is zero. -/
theorem tracked_within (levels : Nat) {levels' : Nat} (hle : levels ≤ levels')
    (hsame : same → levels = levels') (depth depth' : Nat) (c : Lookahead σ) :
    Tracks (.parser depth limit) (.parser depth' limit') same (levels = 0) c
      ((within levels).val.run ⟨c, depth, limit⟩)
      fun d => (within levels').val.run (⟨d, depth', limit'⟩ : Parser σ') := by
  induction levels generalizing levels' depth depth' c with
  | zero =>
    refine ⟨[], c, .tooDeep, .nil c, rfl, nofun, fun _ _ => rfl, ?_⟩
    intro d m' hd _ _ h
    cases hd
    cases hsame (h rfl)
    rfl
  | succ levels ih =>
    obtain ⟨k, rfl⟩ : ∃ k, levels' = k + 1 := ⟨levels' - 1, by omega⟩
    show Tracks _ _ _ _ c
      ((nested fun _ => parenthesized (within levels).val (within levels).property).run _)
      fun d => (nested fun _ => parenthesized (within k).val (within k).property).run _
    have inner (c : Lookahead σ) : Tracks (.parser (depth + 1) limit) (.parser (depth' + 1) limit')
        same (levels = 0) c ((within levels).val.run ⟨c, depth + 1, limit⟩)
        fun d => (within k).val.run (⟨d, depth' + 1, limit'⟩ : Parser σ') := by
      apply ih
      · omega
      · intro h
        exact Nat.succ.inj (hsame h)
    have deep : levels = 0 → ∀ (p q : Parser σ), (within levels).val.run p ≠ .ok () q := by
      rintro rfl p q h
      cases h
    exact (tracked_nested (tracked_parenthesized inner deep c)).mono False.elim

variable (σ') in
/-- A filter is tracked by itself over any source. -/
theorem tracked_self (levels depth limit : Nat) (c : Lookahead σ) :
    Tracks (.parser depth limit) (.parser depth limit) True (levels = 0) c
      ((within levels).val.run ⟨c, depth, limit⟩)
      fun d => (within levels).val.run (⟨d, depth, limit⟩ : Parser σ') :=
  tracked_within levels (Nat.le_refl _) (fun _ => rfl) depth depth c

end FilterRule

end LdapFilter
