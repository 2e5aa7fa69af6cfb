/-!
# Spans of octets

A span marks the octets from `start` up to, but not with, `stop`. Bounds in the wrong order
make no span (`Span.ofBounds?`), and the error that says so keeps both of them. A span read
back from its written form is taken as it is.
-/

namespace LdapFilter

/-- The octets from `start` up to, but not with, `stop`. -/
structure Span where
  start : Nat
  stop : Nat
  deriving DecidableEq

/-- Bounds of which the second lies before the first. -/
structure ReversedSpan where
  start : Nat
  stop : Nat
  deriving DecidableEq

/-- What is wrong with the bounds. -/
def ReversedSpan.message (r : ReversedSpan) : String :=
  "Span end (" ++ toString r.stop ++ ") < start (" ++ toString r.start ++ ")"

namespace Span

/-- The span of two bounds in order. -/
def ofBounds? (start stop : Nat) : Except ReversedSpan Span :=
  if start ≤ stop then .ok ⟨start, stop⟩ else .error ⟨start, stop⟩

theorem ofBounds?_eq_ok_iff {start stop : Nat} {s : Span} :
    ofBounds? start stop = .ok s ↔ start ≤ stop ∧ s = ⟨start, stop⟩ := by
  unfold ofBounds?
  split
  · next h => simp [h, eq_comm]
  · next h => simp [h]

/-- The span without octets at `start`. -/
def empty (start : Nat) : Span :=
  ⟨start, start⟩

/-- How many octets a span covers. -/
def length (s : Span) : Nat :=
  s.stop - s.start

/-- Whether a span covers no octet. -/
def isEmpty (s : Span) : Bool :=
  s.start = s.stop

end Span

end LdapFilter
