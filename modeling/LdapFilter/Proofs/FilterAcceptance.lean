import LdapFilter.Proofs.ItemAcceptance

/-!
# The rules of a filter accept filters

A rule of filters inside one another accepts every filter of its number of levels, whatever comes
after it: a closing parenthesis ends it.
-/

namespace LdapFilter.FilterRule

open Grammar
open TokenRule (run_skip run_symbol run_item_of_reads kind_of_item)

variable {σ : Type} [TokenSource σ] {depth limit : Nat} {c d m : Lookahead σ} {u : List Char}

/-- That a rule of filters, run from `c`, ends at `m`. -/
abbrev Accepts (depth limit : Nat) (rule : FilterRule σ Unit) (c m : Lookahead σ) : Prop :=
  rule.run ⟨c, depth, limit⟩ = .ok () ⟨m, depth, limit⟩

theorem accepts_onTokens {rule : TokenRule σ Unit} (h : rule.run c = .ok () m) :
    Accepts depth limit (onTokens rule) c m :=
  holds_onTokens (v := .fits) h

theorem accepts_bind {rule : FilterRule σ Unit} {next : Unit → FilterRule σ Unit}
    (h : Accepts depth limit rule c d) (h' : Accepts depth limit (next ()) d m) :
    Accepts depth limit (rule >>= next) c m := by
  rw [Accepts, Rule.run_bind, h]
  exact h'

/-- Filters begin with a parenthesis. -/
theorem kind_of_filters {levels : Nat} (hr : Reads c u m) (hu : Filters levels u) :
    c.kind = .lparen := by
  cases hu with
  | one h => cases h with | mk => exact hr.spells_head.kind_eq rfl
  | cons h => cases h with | mk => exact hr.spells_head.kind_eq rfl

section Inside

variable {filter : FilterRule σ Unit} {h : filter.Consumes} {levels : Nat}
  (hf : ∀ {c m u}, Reads c u m → Filter levels u → Accepts depth limit filter c m)
include hf

theorem accepts_filterlist (hm : m.kind ≠ .lparen) :
    ∀ {c u}, Reads c u m → Filters levels u → Accepts depth limit (filterlist filter h) c m
  | c, _, hr, .one hu => by
    refine accepts_bind (hf hr hu) ?_
    rw [Accepts, Rule.run_repeatWhile, if_neg (by simpa using hm)]
  | c, _, hr, .cons hu hs => by
    obtain ⟨d, first, rest⟩ := hr.split
    have again := accepts_filterlist hm rest hs
    refine accepts_bind (hf first hu) ?_
    rw [Accepts, Rule.run_repeatWhile, if_pos (by simpa using kind_of_filters rest hs)]
    exact again

theorem accepts_filtercomp (hr : Reads c u m) (hu : Component levels u) (hm : m.kind = .rparen) :
    Accepts depth limit (filtercomp filter h) c m := by
  have hne : m.kind ≠ .lparen := by rw [hm]; decide
  rw [Accepts, run_filtercomp]
  cases hu with
  | and hs =>
    have hk : c.kind = .ampersand := hr.spells_head.kind_eq rfl
    obtain ⟨d, taken, rest⟩ := hr.tail
    rw [if_pos (.inl hk)]
    exact accepts_bind (accepts_onTokens (run_skip taken)) (accepts_filterlist hf hne rest hs)
  | or hs =>
    have hk : c.kind = .vertbar := hr.spells_head.kind_eq rfl
    obtain ⟨d, taken, rest⟩ := hr.tail
    rw [if_pos (.inr hk)]
    exact accepts_bind (accepts_onTokens (run_skip taken)) (accepts_filterlist hf hne rest hs)
  | not hs =>
    have hk : c.kind = .exclamation := hr.spells_head.kind_eq rfl
    obtain ⟨d, taken, rest⟩ := hr.tail
    rw [if_neg (by simp [hk]), if_pos hk]
    exact accepts_bind (accepts_onTokens (run_skip taken)) (hf rest hs)
  | item hi =>
    have hk := kind_of_item hr hi
    rw [if_neg (by obtain h | h | h := hk <;> simp [h]),
      if_neg (by obtain h | h | h := hk <;> simp [h])]
    exact accepts_onTokens (run_item_of_reads hr hi hm)

theorem accepts_parenthesized (hr : Reads c u m) (hu : Filter (levels + 1) u) :
    Accepts depth limit (parenthesized filter h) c m := by
  cases hu with
  | @mk _ body hb =>
    have hr : Reads c (['('] ++ (body ++ [')'])) m := hr
    obtain ⟨d, opening, hr⟩ := hr.split
    obtain ⟨e, hbody, closing⟩ := hr.split
    have hk : e.kind = .rparen := closing.spells_head.kind_eq rfl
    refine accepts_bind (accepts_onTokens (run_symbol rfl opening)) ?_
    refine accepts_bind (accepts_filtercomp hf hbody hb hk) ?_
    exact accepts_onTokens (run_symbol rfl closing)

end Inside

/-- A filter of at most `levels` levels is accepted. -/
theorem accepts_within {levels : Nat} (hr : Reads c u m) (hu : Filter levels u) :
    Accepts depth limit (within levels).val c m := by
  induction levels generalizing depth c u m with
  | zero => cases hu
  | succ levels ih =>
    show Accepts depth limit
      (nested fun _ => parenthesized (within levels).val (within levels).property) c m
    exact holds_nested (v := .fits) (accepts_parenthesized (fun hr hu => ih hr hu) hr hu)

end LdapFilter.FilterRule
