import LdapFilter.Token.Source

/-!
# Replayed tokens

A replay gives the tokens of a list, one position each, and then the end of the input for ever.
It may be told to fail in place of one of them, and then fails there for ever. The tokens may be
of any kind and text, so that a parser can be run on sequences that no lexer gives.
-/

namespace LdapFilter

/-- The tokens left of a list. -/
structure Replay where
  /-- Kinds and texts of the tokens to come. -/
  rest : List (Terminal × String)
  /-- How many tokens have been given. -/
  position : Nat
  /-- The position at which the replay fails. -/
  failAt : Option Nat

namespace Replay

/-- The replay of a list from its beginning. -/
def ofList (tokens : List (Terminal × String)) (failAt : Option Nat) : Replay :=
  ⟨tokens, 0, failAt⟩

/-- The next token of the list, or the failure in its place. -/
def nextToken : EStateM LexError Replay Token := fun r =>
  if r.failAt = some r.position then .error (.invalidByte 0xFF r.position) r
  else
    match r.rest with
    | [] => .ok (.eof r.position r.position) r
    | (kind, text) :: rest =>
      .ok ⟨kind, text, r.position, ⟨r.position, r.position + 1⟩⟩
        { r with rest, position := r.position + 1 }

instance : TokenSource Replay where
  next := nextToken
  position := position
  remaining r := r.rest.length
  remaining_next {r r' t} h := by
    unfold nextToken at h
    split at h
    · cases h
    · split at h
      · cases h
        exact Nat.le_refl _
      · next hr =>
        cases h
        rw [hr, List.length_cons]
        exact Nat.add_le_add_left (Token.weight_le_one _) _

end Replay

end LdapFilter
