import LdapFilter.Proofs.Spelling

/-!
# Rules stay inside the grammar

A rule that fits has read a construct of its language, and a rule that stops earlier has read
what can still become one: after what was read, the construct that is lacking can follow, or the
token that cannot be taken. `Stays` says so of one run. A rule in the middle of another is held
against what the outer rule leaves over, the texts that complete those already read. Two languages
are kept apart, because a limit on nesting is noticed only where a filter would open: up to there
a text may belong to no filter within the limit, but always to one beyond it.
-/

namespace LdapFilter

variable {σ τ : Type} [TokenSource σ]

/-- What a verdict at `m`, after `text` was read, says of texts in `L`, the language within the
limit on nesting, and in `M`, the one without it. -/
def Verdict.Viable (L M : List Char → Prop) (text : List Char) (m : Lookahead σ) :
    Verdict → Prop
  | fits => L text
  | lacks construct => ∃ ch rest, construct.Begins ch ∧ L (text ++ ch :: rest)
  | stuck => ∃ ch rest, m.current.Spells ch ∧ M (text ++ ch :: rest)
  | tooDeep => ∃ rest, M (text ++ rest)

namespace Verdict.Viable

variable {L L' M M' : List Char → Prop} {text before : List Char} {m : Lookahead σ} {v : Verdict}

omit [TokenSource σ] in
/-- What can still become a text of one language can become a longer one of another. -/
theorem extend (h : v.Viable L M text m) (hv : v ≠ .fits) (hL : ∀ s, L s → ∃ w, L' (s ++ w))
    (hM : ∀ s, M s → ∃ w, M' (s ++ w)) : v.Viable L' M' text m := by
  cases v with
  | fits => exact absurd rfl hv
  | lacks construct =>
    obtain ⟨ch, rest, hb, h⟩ := h
    obtain ⟨w, hw⟩ := hL _ h
    exact ⟨ch, rest ++ w, hb, by simpa using hw⟩
  | stuck =>
    obtain ⟨ch, rest, hs, h⟩ := h
    obtain ⟨w, hw⟩ := hM _ h
    exact ⟨ch, rest ++ w, hs, by simpa using hw⟩
  | tooDeep =>
    obtain ⟨rest, h⟩ := h
    obtain ⟨w, hw⟩ := hM _ h
    exact ⟨rest ++ w, by simpa using hw⟩

omit [TokenSource σ] in
/-- What completes the texts that begin with `before` is read after it. -/
theorem of_residual (h : v.Viable (fun s => L (before ++ s)) (fun s => M (before ++ s)) text m) :
    v.Viable L M (before ++ text) m := by
  cases v with
  | fits => exact h
  | lacks => simpa only [Viable, List.append_assoc] using h
  | stuck => simpa only [Viable, List.append_assoc] using h
  | tooDeep => simpa only [Viable, List.append_assoc] using h

end Verdict.Viable

/-- The run from `c` with the result `result` reads a text, and reaches a verdict that is right
about it. -/
def Stays (F : Frame σ τ) (L M : List Char → Prop) (c : Lookahead σ)
    (result : EStateM.Result ParseError τ Unit) : Prop :=
  c.current.IsSpelled → ∃ (text : List Char) (m : Lookahead σ) (v : Verdict),
    Reads c text m ∧ v.Holds F m result ∧ v.Viable L M text m

namespace Stays

variable {F : Frame σ τ} {L L₁ M M₁ : List Char → Prop} {c : Lookahead σ}
  {result no : EStateM.Result ParseError τ Unit}

theorem of_ok (h : L []) : Stays F L M c (.ok () (F.put c)) :=
  fun _ => ⟨[], c, .fits, .nil c, rfl, h⟩

theorem of_lacks {construct : Construct} {ch : Char} {rest : List Char}
    (hb : construct.Begins ch) (h : L (ch :: rest)) :
    Stays F L M c (.error (.unexpected construct c.current) (F.put c)) :=
  fun _ => ⟨[], c, .lacks construct, .nil c, rfl, ch, rest, hb, h⟩

theorem ite {p : Prop} [Decidable p] (hyes : p → Stays F L M c result)
    (hno : ¬p → Stays F L M c no) : Stays F L M c (if p then result else no) := by
  split
  · next h => exact hyes h
  · next h => exact hno h

/-- A run stays in another language if what it has read is in it whenever the run fits, and can
be completed to one of its texts in any case. -/
theorem weaken (h : Stays F L₁ M₁ c result)
    (hfit : ∀ u m, Reads c u m → L₁ u → L u)
    (hL : ∀ u, L₁ u → ∃ w, L (u ++ w)) (hM : ∀ u, M₁ u → ∃ w, M (u ++ w)) :
    Stays F L M c result := by
  intro hc
  obtain ⟨text, m, v, hr, hv, hw⟩ := h hc
  refine ⟨text, m, v, hr, hv, ?_⟩
  by_cases hfits : v = .fits
  · subst hfits
    exact hfit text m hr hw
  · exact hw.extend hfits hL hM

theorem mono (h : Stays F L₁ M₁ c result) (hL : ∀ u, L₁ u → L u) (hM : ∀ u, M₁ u → M u) :
    Stays F L M c result := by
  apply h.weaken (fun u _ _ => hL u)
  · intro u hu
    exact ⟨[], by simpa using hL u hu⟩
  · intro u hu
    exact ⟨[], by simpa using hM u hu⟩

/-- A run that needs the token at its start may be told which character it spells. -/
theorem of_spelled (hk : c.kind ≠ .eof)
    (h : ∀ ch, c.current.Spells ch → Stays F L M c result) : Stays F L M c result := by
  intro hc
  rcases hc with he | ⟨ch, hch⟩
  · exact absurd he hk
  · exact h ch hch (.inr ⟨ch, hch⟩)

/-- A run that takes a token first stays in a language to which its character can be completed, if
the rest of the run stays in what completes it. -/
theorem of_take [SpellingSource σ] {ch : Char} (hch : c.current.Spells ch)
    (hM : ∃ rest, M (ch :: rest))
    (herr : ∀ e s, TokenSource.next c.source = .error e s →
      result = .error (.lexical e) (F.put ⟨s, c.current⟩))
    (h : ∀ m, c.Takes m → Stays F (fun s => L (ch :: s)) (fun s => M (ch :: s)) m result) :
    Stays F L M c result := by
  intro hc
  rcases Lookahead.takes_or_error hch.kind_ne_eof with ⟨m, hm⟩ | ⟨e, s, hs⟩
  · have one : Reads c [ch] m := .single hch hm
    obtain ⟨text, n, v, hr, hv, ht⟩ := h m hm (one.isSpelled hc)
    exact ⟨[ch] ++ text, n, v, one.append hr, hv, ht.of_residual⟩
  · obtain ⟨rest, hrest⟩ := hM
    exact ⟨[], c, .stuck, .nil c, ⟨e, s, hs, herr e s hs⟩, ch, rest, hch, hrest⟩

section Bind

variable [SpellingSource σ] {size : τ → Nat} {rule : Rule τ size Unit}
  {next : Unit → Rule τ size Unit}

/-- A sequence stays in a language to which the texts of its first rule can be completed, if its
second rule stays in what completes those that were read. -/
theorem bind (h : Stays F L₁ M₁ c (rule.run (F.put c))) (hL : ∀ u, L₁ u → ∃ w, L (u ++ w))
    (hM : ∀ u, M₁ u → ∃ w, M (u ++ w))
    (hn : ∀ u m, Reads c u m → L₁ u → rule.run (F.put c) = .ok () (F.put m) →
      Stays F (fun s => L (u ++ s)) (fun s => M (u ++ s)) m ((next ()).run (F.put m))) :
    Stays F L M c ((rule >>= next).run (F.put c)) := by
  intro hc
  obtain ⟨u, m, v, hr, hv, hu⟩ := h hc
  by_cases hfits : v = .fits
  · subst hfits
    obtain ⟨text, n, w, hr', hw, ht⟩ := hn u m hr hu hv (hr.isSpelled hc)
    refine ⟨u ++ text, n, w, hr.append hr', ?_, ht.of_residual⟩
    have hv : rule.run (F.put c) = .ok () (F.put m) := hv
    rw [Rule.run_bind, hv]
    exact hw
  · exact ⟨u, m, v, hr, hv.bind hfits next, hu.extend hfits hL hM⟩

variable (F) in
/-- A loop stays in a language that has the empty text, and is kept when the text of a round is
put in front. -/
theorem repeatWhile {again : τ → Bool} {round : Rule τ size Unit}
    {lt : ∀ s s', again s → round.run s = .ok () s' → size s' < size s}
    (hround : ∀ c, again (F.put c) → c.current.IsSpelled →
      ∃ L₁ M₁, Stays F L₁ M₁ c (round.run (F.put c)) ∧ (∀ u, L₁ u → M₁ u) ∧
        (∀ u s, L₁ u → L s → L (u ++ s)) ∧ ∀ u s, M₁ u → M s → M (u ++ s))
    (hL : L []) (hM : M []) (c : Lookahead σ) :
    Stays F L M c ((Rule.repeatWhile again round lt).run (F.put c)) := by
  -- each round leaves a smaller state
  induction hn : size (F.put c) using Nat.strongRecOn generalizing c with
  | ind n ih =>
    rw [Rule.run_repeatWhile]
    by_cases hc : again (F.put c)
    · rw [if_pos hc]
      intro hs
      obtain ⟨L₁, M₁, hr, hle, hL₁, hM₁⟩ := hround c hc hs
      refine bind hr (fun u hu => ⟨[], hL₁ u [] hu hL⟩) (fun u hu => ⟨[], hM₁ u [] hu hM⟩)
        (fun u m _ hu hm => ?_) hs
      have rest := ih _ (hn ▸ lt _ _ hc hm) m rfl
      exact rest.mono (fun s hs => hL₁ u s hu hs) fun s hs => hM₁ u s (hle u hu) hs
    · rw [if_neg hc]
      exact of_ok hL

end Bind

end Stays

end LdapFilter
