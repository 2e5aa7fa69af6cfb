import LdapFilter.Proofs.ItemViability

/-!
# The rules of a filter stay inside the grammar

A rule of filters inside one another stays in the filters of its number of levels. Where it would
open one filter too many, what it has read still begins a filter of more levels. So does what was
read before a token that cannot be taken, as no rule asks for the levels left before it takes it.
-/

namespace LdapFilter.FilterRule

open Grammar
open TokenRule (StaysIn staysIn_symbol staysIn_item run_take_of_takes run_take_of_error)

variable {σ : Type} [TokenSource σ] {depth limit : Nat} {L M : List Char → Prop} {c : Lookahead σ}

theorem stays_onTokens {rule : TokenRule σ Unit}
    (h : StaysIn limit L c rule) :
    Stays (.parser depth limit) L L c ((onTokens rule).run ⟨c, depth, limit⟩) := by
  intro hc
  obtain ⟨text, m, v, hr, hv, ht⟩ := h hc
  exact ⟨text, m, v, hr, holds_onTokens hv, ht⟩

theorem stays_nested {rule : Unit → FilterRule σ Unit}
    (h : Stays (.parser (depth + 1) limit) L M c ((rule ()).run ⟨c, depth + 1, limit⟩)) :
    Stays (.parser depth limit) L M c ((nested rule).run ⟨c, depth, limit⟩) := by
  intro hc
  obtain ⟨text, m, v, hr, hv, ht⟩ := h hc
  exact ⟨text, m, v, hr, holds_nested hv, ht⟩

variable [SpellingSource σ]

theorem stays_skip_bind {next : FilterRule σ Unit} {ch : Char} (hch : c.current.Spells ch)
    (hM : ∃ rest, M (ch :: rest))
    (h : ∀ m, Stays (.parser depth limit) (fun s => L (ch :: s)) (fun s => M (ch :: s)) m
      (next.run ⟨m, depth, limit⟩)) :
    Stays (.parser depth limit) L M c
      ((onTokens TokenRule.skip >>= fun _ => next).run ⟨c, depth, limit⟩) := by
  apply Stays.of_take hch hM
  · intro e s hs
    simp only [Rule.run_bind, onTokens, TokenRule.skip, run_take_of_error hs]
  · intro m hm
    simp only [Rule.run_bind, onTokens, TokenRule.skip, run_take_of_takes hm, Rule.run_pure]
    exact h m

/-- A filter that every limit allows but zero. -/
theorem filter_one : Filter 1 ['(', '0', '=', ')'] :=
  .mk (.item (.simple (.mk (.numericoid (.number .zero)) .nil) .equal .nil))

section Inside

variable {filter : FilterRule σ Unit} {h : filter.Consumes} {levels : Nat}
  (hf : ∀ c, Stays (.parser depth limit) (Filter levels) (fun s => ∃ n, Filter n s) c
    (filter.run ⟨c, depth, limit⟩))
include hf

theorem stays_filterlist (c : Lookahead σ) :
    Stays (.parser depth limit) (Filters levels) (fun s => ∃ n, Filters n s) c
      ((filterlist filter h).run ⟨c, depth, limit⟩) := by
  have cons {u s : List Char} (hu : ∃ n, Filter n u) (hs : s = [] ∨ ∃ n, Filters n s) :
      ∃ n, Filters n (u ++ s) := by
    obtain ⟨n, hu⟩ := hu
    obtain rfl | ⟨k, hs⟩ := hs
    · exact ⟨n, by simpa using .one hu⟩
    · exact ⟨max n k, .cons (hu.mono (by omega)) (hs.mono (by omega))⟩
  apply Stays.bind (hf c)
  · intro u hu
    exact ⟨[], Filters.prepend hu (.inl rfl)⟩
  · intro u hu
    exact ⟨[], cons hu (.inl rfl)⟩
  intro u m _ hu _
  have loop : Stays (.parser depth limit) (fun s => s = [] ∨ Filters levels s)
      (fun s => s = [] ∨ ∃ n, Filters n s) m
      ((Rule.repeatWhile (fun p => p.cursor.kind = .lparen) filter fun p p' _ => h p () p').run
        ⟨m, depth, limit⟩) := by
    refine .repeatWhile (.parser depth limit) ?_ (.inl rfl) (.inl rfl) m
    intro d _ _
    refine ⟨_, _, hf d, fun _ h => ⟨_, h⟩, ?_, ?_⟩
    · intro u s hu hs
      exact .inr (Filters.prepend hu hs)
    · intro u s hu hs
      exact .inr (cons hu hs)
  exact loop.mono (fun s hs => Filters.prepend hu hs) fun s hs => cons ⟨_, hu⟩ hs

theorem stays_filtercomp (c : Lookahead σ) :
    Stays (.parser depth limit) (Component levels) (fun s => ∃ n, Component n s) c
      ((filtercomp filter h).run ⟨c, depth, limit⟩) := by
  simp only [run_filtercomp]
  refine .ite (fun hk => .of_spelled ?_ fun ch hch => ?_) fun _ =>
    .ite (fun hk => .of_spelled ?_ fun ch hch => ?_) fun _ => ?_
  · rcases hk with hk | hk <;> rw [hk] <;> decide
  · rcases hk with hk | hk
    · cases hch.eq_symbol hk rfl
      apply stays_skip_bind hch ⟨_, 1, .and (.one filter_one)⟩
      intro m
      refine (stays_filterlist hf m).mono (fun s hs => .and hs) ?_
      rintro s ⟨n, hs⟩
      exact ⟨n, .and hs⟩
    · cases hch.eq_symbol hk rfl
      apply stays_skip_bind hch ⟨_, 1, .or (.one filter_one)⟩
      intro m
      refine (stays_filterlist hf m).mono (fun s hs => .or hs) ?_
      rintro s ⟨n, hs⟩
      exact ⟨n, .or hs⟩
  · rw [hk]
    decide
  · cases hch.eq_symbol hk rfl
    apply stays_skip_bind hch ⟨_, 1, .not filter_one⟩
    intro m
    refine (hf m).mono (fun s hs => .not hs) ?_
    rintro s ⟨n, hs⟩
    exact ⟨n, .not hs⟩
  · exact (stays_onTokens (staysIn_item c)).mono (fun s hs => .item hs) fun s hs => ⟨0, .item hs⟩

theorem stays_parenthesized (c : Lookahead σ) :
    Stays (.parser depth limit) (Filter (levels + 1)) (fun s => ∃ n, Filter n s) c
      ((parenthesized filter h).run ⟨c, depth, limit⟩) := by
  have begun (s : List Char) (hs : s = ['(']) : ∃ w, Filter (levels + 1) (s ++ w) := by
    subst hs
    exact ⟨['0', '=', ')'], filter_one.mono (by omega)⟩
  apply Stays.bind (stays_onTokens (staysIn_symbol '(' rfl rfl c)) begun
  · intro s hs
    obtain ⟨w, hw⟩ := begun s hs
    exact ⟨w, _, hw⟩
  rintro u m - rfl -
  apply Stays.bind (stays_filtercomp hf m)
  · intro s hs
    exact ⟨[')'], .mk hs⟩
  · rintro s ⟨n, hs⟩
    exact ⟨[')'], _, .mk hs⟩
  intro s n _ hs _
  apply (stays_onTokens (staysIn_symbol ')' rfl rfl n)).mono
  · rintro v rfl
    exact .mk hs
  · rintro v rfl
    exact ⟨_, .mk hs⟩

end Inside

/-- The rule of filters stays within the filters of its number of levels, and up to where that
number does not suffice within filters. -/
theorem stays_within (levels depth : Nat) (c : Lookahead σ) :
    Stays (.parser depth limit) (Filter levels) (fun s => ∃ n, Filter n s) c
      ((within levels).val.run ⟨c, depth, limit⟩) := by
  induction levels generalizing depth c with
  | zero =>
    exact fun _ => ⟨[], c, .tooDeep, .nil c, rfl, _, 1, filter_one⟩
  | succ levels ih =>
    show Stays _ _ _ c
      ((nested fun _ => parenthesized (within levels).val (within levels).property).run _)
    exact stays_nested (stays_parenthesized (ih (depth + 1)) c)

end LdapFilter.FilterRule
