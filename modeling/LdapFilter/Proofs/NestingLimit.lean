import LdapFilter.Proofs.Continuation
import LdapFilter.Proofs.FirstViolation
import LdapFilter.Proofs.Placement

/-!
# The limit on nesting

A run with a higher limit goes through the same tokens as one with a lower limit, up to where that
one would open one filter too many, and on from there (`Outlasts`). Rules on tokens know of no
limit, so they run alike; what is left is one lemma for each construct by which filters are made
of filters, and an induction on the lower limit. So a higher limit changes no answer but the one
that filters nest too deep, and replaces that one by what is found at that place or behind it.
-/

namespace LdapFilter

variable {σ τ : Type} [TokenSource σ]

/-- The run with the result `result'` reaches the verdict of the one with the result `result` at
the same place, unless that verdict is that filters nest too deep: then it reaches its own there or
behind it. -/
def Outlasts (F F' : Frame σ τ) (c : Lookahead σ) (result result' : EStateM.Result ParseError τ Unit) :
    Prop :=
  ∃ (ts us : List Token) (m n : Lookahead σ) (v w : Verdict),
    Path (· = ·) c ts m ∧ Path (· = ·) m us n ∧ v.Holds F m result ∧ w.Holds F' n result' ∧
    (v ≠ .tooDeep → n = m ∧ w = v)

namespace Outlasts

variable {F F' : Frame σ τ} {c : Lookahead σ} {result result' no no' : EStateM.Result ParseError τ Unit}

/-- Runs that track each other over one source reach one verdict at one place. -/
theorem of_tracks {atOnce : Prop} {run' : Lookahead σ → EStateM.Result ParseError τ Unit}
    (h : Tracks F F' True atOnce c result run') : Outlasts F F' c result (run' c) := by
  obtain ⟨ts, m, v, hp, hv, -, -, ht⟩ := h
  have stuck (h : v = .stuck) : m.Stuck := by
    subst h
    obtain ⟨e, s, he, -⟩ := hv
    exact ⟨e, s, he⟩
  have hw := ht c m hp.alike_self (fun _ => .refl _) stuck fun _ => trivial
  exact ⟨ts, [], m, m, v, v, hp, .nil m, hv, hw, fun _ => ⟨rfl, rfl⟩⟩

theorem ite {p : Prop} [Decidable p] (hyes : p → Outlasts F F' c result result')
    (hno : ¬p → Outlasts F F' c no no') :
    Outlasts F F' c (if p then result else no) (if p then result' else no') := by
  by_cases h : p
  · rw [if_pos h, if_pos h]
    exact hyes h
  · rw [if_neg h, if_neg h]
    exact hno h

variable {size : τ → Nat}

/-- A sequence outlasts a sequence, part by part. Where the first part nests too deep in the one, the
other may still go on to its second part. -/
theorem bind {rule rule' : Rule τ size Unit} {next next' : Unit → Rule τ size Unit}
    (h : Outlasts F F' c (rule.run (F.put c)) (rule'.run (F'.put c)))
    (hn : ∀ m, rule'.run (F'.put c) = .ok () (F'.put m) →
      Outlasts F F' m ((next ()).run (F.put m)) ((next' ()).run (F'.put m))) :
    Outlasts F F' c ((rule >>= next).run (F.put c)) ((rule' >>= next').run (F'.put c)) := by
  obtain ⟨ts, us, m, n, v, w, hp, hq, hv, hw, hsame⟩ := h
  by_cases hfits : w = .fits
  · subst hfits
    have hrun : rule'.run (F'.put c) = .ok () (F'.put n) := hw
    obtain ⟨ts', us', m', n', v', w', hp', hq', hv', hw', hsame'⟩ := hn n hrun
    have last : w'.Holds F' n' ((rule' >>= next').run (F'.put c)) := by
      rw [Rule.run_bind, hrun]
      exact hw'
    by_cases hdeep : v = .tooDeep
    · subst hdeep
      have behind := hq.append (hp'.append hq')
      exact ⟨ts, us ++ (ts' ++ us'), m, n', .tooDeep, w', hp, behind, hv.bind nofun next, last,
        fun h => absurd rfl h⟩
    · obtain ⟨rfl, rfl⟩ := hsame hdeep
      have hv : rule.run (F.put c) = .ok () (F.put n) := hv
      have first : v'.Holds F m' ((rule >>= next).run (F.put c)) := by
        rw [Rule.run_bind, hv]
        exact hv'
      exact ⟨ts ++ ts', us', m', n', v', w', hp.append hp', hq', first, last, hsame'⟩
  · have hfits' : v ≠ .fits := by
      rintro rfl
      exact hfits (hsame nofun).2
    exact ⟨ts, us, m, n, v, w, hp, hq, hv.bind hfits' next, hw.bind hfits next', hsame⟩

variable (F F') in
/-- A loop outlasts a loop whose rounds its own outlast, if both go on at the same tokens. -/
theorem repeatWhile {again again' : τ → Bool} {round round' : Rule τ size Unit}
    {lt : ∀ s s', again s → round.run s = .ok () s' → size s' < size s}
    {lt' : ∀ s s', again' s → round'.run s = .ok () s' → size s' < size s}
    (ha : ∀ c, again' (F'.put c) = again (F.put c))
    (hround : ∀ c, Outlasts F F' c (round.run (F.put c)) (round'.run (F'.put c)))
    (c : Lookahead σ) :
    Outlasts F F' c ((Rule.repeatWhile again round lt).run (F.put c))
      ((Rule.repeatWhile again' round' lt').run (F'.put c)) := by
  -- each round of the second loop leaves a smaller state
  induction hn : size (F'.put c) using Nat.strongRecOn generalizing c with
  | ind n ih =>
    rw [Rule.run_repeatWhile, Rule.run_repeatWhile, ha]
    apply ite
    · intro hc
      apply bind (hround c)
      intro m hm
      have less : size (F'.put m) < n := hn ▸ lt' _ _ ((ha c).trans hc) hm
      exact ih _ less m rfl
    · intro _
      exact ⟨[], [], c, c, .fits, .fits, .nil c, .nil c, rfl, rfl, fun _ => ⟨rfl, rfl⟩⟩

end Outlasts

/-! ## Rules of a filter -/

namespace FilterRule

open TokenRule (Tracked skip tracked_skip tracked_terminal tracked_item)

variable {depth depth' limit limit' : Nat}

/-- A rule on tokens knows of no limit. -/
theorem outlasts_onTokens {rule : TokenRule σ Unit} {c : Lookahead σ}
    (h : Tracked limit limit' True c rule rule) :
    Outlasts (.parser depth limit) (.parser depth' limit') c
      ((onTokens rule).run ⟨c, depth, limit⟩) ((onTokens rule).run ⟨c, depth', limit'⟩) :=
  .of_tracks (tracked_onTokens h)

theorem outlasts_nested {rule rule' : Unit → FilterRule σ Unit} {c : Lookahead σ}
    (h : Outlasts (.parser (depth + 1) limit) (.parser (depth' + 1) limit') c
      ((rule ()).run ⟨c, depth + 1, limit⟩) ((rule' ()).run ⟨c, depth' + 1, limit'⟩)) :
    Outlasts (.parser depth limit) (.parser depth' limit') c
      ((nested rule).run ⟨c, depth, limit⟩) ((nested rule').run ⟨c, depth', limit'⟩) := by
  obtain ⟨ts, us, m, n, v, w, hp, hq, hv, hw, hsame⟩ := h
  exact ⟨ts, us, m, n, v, w, hp, hq, holds_nested hv, holds_nested hw, hsame⟩

section Inside

variable {filter filter' : FilterRule σ Unit} {h : filter.Consumes} {h' : filter'.Consumes}
  (hf : ∀ c, Outlasts (.parser depth limit) (.parser depth' limit') c
    (filter.run ⟨c, depth, limit⟩) (filter'.run ⟨c, depth', limit'⟩))
include hf

theorem outlasts_filterlist (c : Lookahead σ) :
    Outlasts (.parser depth limit) (.parser depth' limit') c
      ((filterlist filter h).run ⟨c, depth, limit⟩)
      ((filterlist filter' h').run ⟨c, depth', limit'⟩) :=
  .bind (hf c) fun m _ =>
    .repeatWhile (.parser depth limit) (.parser depth' limit') (fun _ => rfl) hf m

theorem outlasts_filtercomp (c : Lookahead σ) :
    Outlasts (.parser depth limit) (.parser depth' limit') c
      ((filtercomp filter h).run ⟨c, depth, limit⟩)
      ((filtercomp filter' h').run ⟨c, depth', limit'⟩) := by
  have operator (hc : c.kind ≠ .eof) : Outlasts (.parser depth limit) (.parser depth' limit') c
      ((onTokens skip).run ⟨c, depth, limit⟩) ((onTokens skip).run ⟨c, depth', limit'⟩) :=
    outlasts_onTokens (tracked_skip hc)
  simp only [run_filtercomp]
  refine .ite (fun hc => ?_) fun _ => .ite (fun hc => ?_) fun _ => ?_
  · apply Outlasts.bind (operator _)
    · exact fun m _ => outlasts_filterlist hf m
    · rcases hc with h | h <;> rw [h] <;> decide
  · apply Outlasts.bind (operator _)
    · exact fun m _ => hf m
    · rw [hc]
      decide
  · exact outlasts_onTokens (tracked_item c)

theorem outlasts_parenthesized (c : Lookahead σ) :
    Outlasts (.parser depth limit) (.parser depth' limit') c
      ((parenthesized filter h).run ⟨c, depth, limit⟩)
      ((parenthesized filter' h').run ⟨c, depth', limit'⟩) :=
  .bind (outlasts_onTokens (tracked_terminal (by decide) c)) fun m _ =>
    .bind (outlasts_filtercomp hf m) fun n _ =>
      outlasts_onTokens (tracked_terminal (by decide) n)

end Inside

/-- A filter of more levels outlasts one of fewer. -/
theorem outlasts_within {levels levels' : Nat} (hle : levels ≤ levels') (depth depth' : Nat)
    (c : Lookahead σ) :
    Outlasts (.parser depth limit) (.parser depth' limit') c
      ((within levels).val.run ⟨c, depth, limit⟩) ((within levels').val.run ⟨c, depth', limit'⟩) := by
  induction levels generalizing levels' depth depth' c with
  | zero =>
    obtain ⟨ts, n, w, hp, hw, -⟩ := tracked_self σ levels' depth' limit' c
    exact ⟨[], ts, c, n, .tooDeep, w, .nil c, hp, rfl, hw, fun h => absurd rfl h⟩
  | succ levels ih =>
    obtain ⟨k, rfl⟩ : ∃ k, levels' = k + 1 := ⟨levels' - 1, by omega⟩
    show Outlasts _ _ c
      ((nested fun _ => parenthesized (within levels).val (within levels).property).run _)
      ((nested fun _ => parenthesized (within k).val (within k).property).run _)
    exact outlasts_nested (outlasts_parenthesized (ih (by omega) (depth + 1) (depth' + 1)) c)

end FilterRule

/-! ## Answers -/

/-- What becomes of an answer where the limit on nesting is raised: nothing, unless the answer is
that filters nest too deep; then the input may be accepted, or refused at that place or behind it. -/
structure OnlyCutShort (answer answer' : Except ParseError Unit) : Prop where
  same : (∀ limit position span, answer ≠ .error (.nestingTooDeep limit position span)) →
    answer' = answer
  behind : ∀ limit position span, answer = .error (.nestingTooDeep limit position span) →
    answer' = .ok () ∨
      ∃ e span', answer' = .error e ∧ e.span = .ok span' ∧ span.start ≤ span'.start

section Answers

variable {limit limit' : Nat} {c m n : Lookahead σ} {s : σ} {v w : Verdict}
  {answer answer' : Except ParseError Unit}

/-- At one place one verdict gives one answer whatever the limit, if it is not about the limit. -/
theorem Verdict.Answers.eq_of_limit (h : v.Answers limit m answer)
    (h' : v.Answers limit' m answer') (hv : v ≠ .tooDeep) : answer' = answer := by
  cases v with
  | fits => exact h'.trans h.symm
  | lacks => exact h'.trans h.symm
  | stuck =>
    obtain ⟨e, k, he, h⟩ := h
    obtain ⟨e', k', he', h'⟩ := h'
    obtain ⟨rfl, -⟩ := EStateM.Result.error.inj (he'.symm.trans he)
    exact h'.trans h.symm
  | tooDeep => exact absurd rfl hv

variable [PlacedSource σ]

/-- A verdict against the input is an error at the token where it was reached or behind that one. -/
theorem Verdict.Answers.start_le {e : ParseError} (h : v.Answers limit m (.error e))
    (hm : m.Heads s) : ∃ span, e.span = .ok span ∧ m.current.span.start ≤ span.start := by
  by_cases hv : v = .stuck
  · subst hv
    obtain ⟨e, k, he, h⟩ := h
    cases h
    obtain ⟨-, stop, hspan⟩ := PlacedSource.refuses he
    refine ⟨_, hspan, ?_⟩
    rw [hm.covers.span]
    exact hm.covers.le
  · exact ⟨_, (h.reports hv).span, Nat.le_refl _⟩

/-- A higher limit on nesting changes no answer but that filters nest too deep. -/
theorem onlyCutShort_recognize (hle : limit ≤ limit') (s : σ) :
    OnlyCutShort (outcome (recognize limit s)) (outcome (recognize limit' s)) := by
  obtain ⟨c, hc⟩ | ⟨e, k, he⟩ := Lookahead.heads_or_error s
  swap
  · rw [recognize_of_error he, recognize_of_error he]
    exact ⟨fun _ => rfl, nofun⟩
  have outlasts : Outlasts (.parser 0 limit) (.parser 0 limit') c
      ((FilterRule.within limit).val.run ⟨c, 0, limit⟩)
      ((FilterRule.within limit').val.run ⟨c, 0, limit'⟩) :=
    FilterRule.outlasts_within hle 0 0 c
  obtain ⟨ts, us, m, n, v, w, hp, hq, hv, hw, hsame⟩ := outlasts
  have ha := hv.answers hc
  have ha' := hw.answers hc
  generalize outcome (recognize limit s) = answer at ha
  generalize outcome (recognize limit' s) = answer' at ha'
  constructor
  · intro hne
    have hdeep : v ≠ .tooDeep := by
      rintro rfl
      exact hne _ _ _ ha
    obtain ⟨rfl, rfl⟩ := hsame hdeep
    exact ha.eq_of_limit ha' hdeep
  · rintro reported position span rfl
    obtain ⟨-, rfl⟩ := ha.of_tooDeep
    obtain ⟨k, hm⟩ := hp.exists_heads hc
    obtain ⟨k', hn⟩ := hq.exists_heads hm
    cases answer' with
    | ok => exact .inl rfl
    | error e =>
      obtain ⟨span, hspan, hstart⟩ := ha'.start_le hn
      exact .inr ⟨e, span, rfl, hspan, Nat.le_trans (hq.start_le hm) hstart⟩

end Answers

open Grammar (Begun)

/-- What lies before the place where filters nest too deep begins a filter, but none within the
limit. -/
theorem begun_of_tooDeep {limit reported position : Nat} {span : Span} {text : List Char}
    (h : outcome (recognize limit (CharCursor.behind [] text)) =
      .error (.nestingTooDeep reported position span)) :
    ∃ u rest, text = u ++ rest ∧ span.start = (Utf8.encodeAll u).length ∧ (∃ n, Begun n u) ∧
      ¬Begun limit u := by
  obtain ⟨c, hc⟩ | ⟨e, k, he⟩ := Lookahead.heads_or_error (CharCursor.behind [] text)
  swap
  · cases h.symm.trans (recognize_of_error he)
  obtain ⟨u, rest, m, v, htext, hr, hm, hv, hviable⟩ := exists_verdict limit hc
  have ha := hv.answers hc
  rw [h] at ha
  obtain ⟨rfl, rfl⟩ := ha.of_tooDeep
  refine ⟨u, rest, htext, (CharCursor.place_of_heads hm).2, ?_, ?_⟩
  · obtain ⟨tail, n, hf⟩ := hviable
    exact ⟨n, tail, hf⟩
  · rintro ⟨tail, hf⟩
    exact not_filter_of_tooDeep hr hv hf

/-- **The limit on nesting only cuts short.** Raising the limit changes no answer but that filters
nest too deep, and that one it replaces by what is found there or later. What lies before that place
begins a filter, but none within the limit. -/
theorem parse_limit_only_cuts_short {limit limit' : Nat} (hle : limit ≤ limit') :
    (∀ text mode, OnlyCutShort (parse text ⟨mode, limit⟩) (parse text ⟨mode, limit'⟩)) ∧
    (∀ bytes, OnlyCutShort (parseBytes bytes limit) (parseBytes bytes limit')) ∧
    ∀ text reported position span,
      parse text ⟨.codePoint, limit⟩ = .error (.nestingTooDeep reported position span) →
      ∃ u rest, text.toList = u ++ rest ∧ span.start = (Utf8.encodeAll u).length ∧
        (∃ n, Begun n u) ∧ ¬Begun limit u := by
  refine ⟨?_, ?_, ?_⟩
  · intro text mode
    cases mode with
    | codePoint => exact onlyCutShort_recognize hle _
    | byte => exact onlyCutShort_recognize hle _
  · intro bytes
    exact onlyCutShort_recognize hle _
  · intro text reported position span h
    exact begun_of_tooDeep h

/-- A negation in a conjunction, and an octet behind its operator that begins no spelling. -/
theorem parse_limit_only_cuts_short_negation :
    (∃ u rest, "(&(!(a=b)))".toList = u ++ rest ∧ 4 = (Utf8.encodeAll u).length ∧ ¬Begun 2 u) ∧
    ∃ e span, parseBytes [0x28, 0x21, 0x28, 0xFF] 2 = .error e ∧ e.span = .ok span ∧
      2 ≤ span.start := by
  have deep : parse "(&(!(a=b)))" ⟨.codePoint, 2⟩ =
      .error (.nestingTooDeep 2 4 ⟨4, 5⟩) := by decide +kernel
  constructor
  · obtain ⟨u, rest, htext, hstart, -, hbegun⟩ :=
      (parse_limit_only_cuts_short (show 2 ≤ 3 by decide)).2.2 _ _ _ _ deep
    exact ⟨u, rest, htext, hstart, hbegun⟩
  · have deep : parseBytes [0x28, 0x21, 0x28, 0xFF] 1 = .error (.nestingTooDeep 1 2 ⟨2, 3⟩) := by
      decide +kernel
    have cut := (parse_limit_only_cuts_short (show 1 ≤ 2 by decide)).2.1 [0x28, 0x21, 0x28, 0xFF]
    obtain hok | h := cut.behind _ _ _ deep
    · have refused : parseBytes [0x28, 0x21, 0x28, 0xFF] 2 ≠ .ok () := by decide +kernel
      exact absurd hok refused
    · exact h

end LdapFilter
