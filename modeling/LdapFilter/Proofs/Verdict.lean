import LdapFilter.Proofs.Branches
import LdapFilter.Proofs.Path

/-!
# How a rule ends

A rule that is run from a lookahead `c` follows a path to some lookahead `m` and ends there in one
of four ways, its `Verdict`: it fits what it has read, it lacks a construct, the token it wants to
take cannot be taken, or it would have to open one filter too many. A verdict and the lookahead
where it was reached fix the result of the run (`Verdict.Holds`). The states of a rule may hold
more than a lookahead; the `Frame` of a run is the part that it leaves alone.
-/

namespace LdapFilter

variable {σ τ : Type} [TokenSource σ]

/-- The state around a lookahead, and the limit on nesting that is reported. -/
structure Frame (σ τ : Type) where
  put : Lookahead σ → τ
  limit : Nat

namespace Frame

/-- Rules on tokens have nothing around their lookahead. -/
abbrev tokens (limit : Nat) : Frame σ (Lookahead σ) :=
  ⟨fun c => c, limit⟩

/-- Rules of a filter count the open filters beside their lookahead. -/
abbrev parser (depth limit : Nat) : Frame σ (Parser σ) :=
  ⟨fun c => ⟨c, depth, limit⟩, limit⟩

end Frame

/-- The four ways in which a rule ends. -/
inductive Verdict where
  | fits
  | lacks (construct : Construct)
  | stuck
  | tooDeep

/-- The result of a run that has reached its verdict at `m`. -/
def Verdict.Holds (F : Frame σ τ) (m : Lookahead σ) (result : EStateM.Result ParseError τ Unit) :
    Verdict → Prop
  | fits => result = .ok () (F.put m)
  | lacks construct => result = .error (.unexpected construct m.current) (F.put m)
  | stuck => ∃ e s, TokenSource.next m.source = .error e s ∧
      result = .error (.lexical e) (F.put ⟨s, m.current⟩)
  | tooDeep =>
    result = .error (.nestingTooDeep F.limit m.current.position m.current.span) (F.put m)

namespace Verdict

variable {F : Frame σ τ} {m : Lookahead σ} {result : EStateM.Result ParseError τ Unit}

/-- A verdict against the input is an error of its own kind. -/
theorem Holds.exists_error {v : Verdict} (h : v.Holds F m result) (hv : v ≠ .fits) :
    ∃ e s, result = .error e s := by
  cases v with
  | fits => exact absurd rfl hv
  | lacks => exact ⟨_, _, h⟩
  | stuck =>
    obtain ⟨e, s, _, h⟩ := h
    exact ⟨_, _, h⟩
  | tooDeep => exact ⟨_, _, h⟩

/-- What goes on after a rule that has ended badly ends in the same way. -/
theorem Holds.bind {size : τ → Nat} {rule : Rule τ size Unit} {s : τ} {v : Verdict}
    (h : v.Holds F m (rule.run s)) (hv : v ≠ .fits) (next : Unit → Rule τ size Unit) :
    v.Holds F m ((rule >>= next).run s) := by
  obtain ⟨e, s', he⟩ := h.exists_error hv
  rw [Rule.run_bind, he]
  rwa [he] at h

end Verdict

/-! ## Looking at a token and taking it -/

namespace TokenRule

theorem run_take_of_takes {c m : Lookahead σ} (h : c.Takes m) : take.run c = .ok c.current m := by
  show EStateM.adaptExcept ParseError.lexical Lookahead.consume c = _
  rw [EStateM.adaptExcept, h.consume_eq]

theorem run_take_of_error {c : Lookahead σ} {e : LexError} {s : σ}
    (h : TokenSource.next c.source = .error e s) :
    take.run c = .error (.lexical e) ⟨s, c.current⟩ := by
  show EStateM.adaptExcept ParseError.lexical Lookahead.consume c = _
  simp only [EStateM.adaptExcept, Lookahead.consume, h]

end TokenRule

namespace FilterRule

/-- A verdict on tokens is the same verdict on a parser around them. -/
theorem holds_onTokens {rule : TokenRule σ Unit} {c m : Lookahead σ} {depth limit : Nat}
    {v : Verdict} (h : v.Holds (.tokens limit) m (rule.run c)) :
    v.Holds (.parser depth limit) m ((onTokens rule).run ⟨c, depth, limit⟩) := by
  cases v with
  | fits => simp only [Verdict.Holds] at h; simp only [Verdict.Holds, onTokens, h]
  | lacks => simp only [Verdict.Holds] at h; simp only [Verdict.Holds, onTokens, h]
  | stuck =>
    obtain ⟨e, s, hs, h⟩ := h
    exact ⟨e, s, hs, by simp only [onTokens, h]⟩
  | tooDeep => simp only [Verdict.Holds] at h; simp only [Verdict.Holds, onTokens, h]

/-- An open filter is closed again however the rule inside it ends. -/
theorem holds_nested {rule : Unit → FilterRule σ Unit} {c m : Lookahead σ} {depth limit : Nat}
    {v : Verdict}
    (h : v.Holds (.parser (depth + 1) limit) m ((rule ()).run ⟨c, depth + 1, limit⟩)) :
    v.Holds (.parser depth limit) m ((nested rule).run ⟨c, depth, limit⟩) := by
  cases v with
  | fits => simp only [Verdict.Holds] at h; simp only [Verdict.Holds, nested, h]; rfl
  | lacks => simp only [Verdict.Holds] at h; simp only [Verdict.Holds, nested, h]; rfl
  | stuck =>
    obtain ⟨e, s, hs, h⟩ := h
    exact ⟨e, s, hs, by simp only [nested, h]; rfl⟩
  | tooDeep => simp only [Verdict.Holds] at h; simp only [Verdict.Holds, nested, h]; rfl

end FilterRule

end LdapFilter
