import LdapFilter.Token.Source

/-!
# Recorded sources

A recorded source gives what its source gives and remembers every answer, tokens and failures
alike. The parser reads it like any other source, so the record shows what a parse has read.
-/

namespace LdapFilter

/-- A source that remembers its answers. -/
structure Recorded (σ : Type) where
  source : σ
  /-- The answers so far, the last one first. -/
  latest : List (Except LexError Token)

namespace Recorded

variable {σ : Type} [TokenSource σ]

/-- A source without answers yet. -/
def ofSource (s : σ) : Recorded σ :=
  ⟨s, []⟩

/-- The answers so far, in order. -/
def answers (r : Recorded σ) : List (Except LexError Token) :=
  r.latest.reverse

/-- The next answer, remembered. -/
def nextToken : EStateM LexError (Recorded σ) Token := fun r =>
  match TokenSource.next r.source with
  | .ok t s => .ok t ⟨s, .ok t :: r.latest⟩
  | .error e s => .error e ⟨s, .error e :: r.latest⟩

instance : TokenSource (Recorded σ) where
  next := nextToken
  position r := TokenSource.position r.source
  remaining r := TokenSource.remaining r.source
  remaining_next {r r' t} h := by
    unfold nextToken at h
    split at h
    · next hs =>
      cases h
      exact TokenSource.remaining_next hs
    · cases h

end Recorded

end LdapFilter
