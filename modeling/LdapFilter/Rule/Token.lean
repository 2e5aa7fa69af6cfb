import LdapFilter.Token.Lookahead
import LdapFilter.Rule.Basic

/-!
# Rules on tokens

A rule on tokens reads from a lookahead, and leaves it at the first token that it did not take.
Its size is the number of tokens that may still come before the end of the input, so a loop that
takes a token each time, and none at the end, ends (`TokenRule.many`).
-/

namespace LdapFilter

/-- A rule that reads tokens. -/
abbrev TokenRule (σ : Type) [TokenSource σ] : Type → Type :=
  Rule (Lookahead σ) Lookahead.remaining

namespace TokenRule

variable {σ : Type} [TokenSource σ]

/-- The next token, which stays where it is. -/
def peek : TokenRule σ Token where
  run c := .ok c.current c
  size_le h := by cases h; exact Nat.le_refl _

/-- Takes the next token, whatever it is. -/
def take : TokenRule σ Token where
  run := EStateM.adaptExcept .lexical Lookahead.consume
  size_le h :=
    Nat.le_of_add_right_le (Lookahead.remaining_consume (Lookahead.consume_of_adaptExcept h))

/-- Takes the next token, whatever it is, and drops it. -/
def skip : TokenRule σ Unit := do
  let _ ← take

/-- Takes a token of kind `kind`. -/
def expect (kind : Terminal) : TokenRule σ Token where
  run := Lookahead.matchKind kind
  size_le h :=
    Nat.le_of_add_right_le (Lookahead.remaining_consume (Lookahead.consume_of_matchKind h))

/-- Takes a token of kind `kind` and drops it. -/
def terminal (kind : Terminal) : TokenRule σ Unit := do
  let _ ← expect kind

/-- Fails for want of `construct`. -/
def refuse (construct : Construct) : TokenRule σ Unit where
  run c := .error (c.expected construct) c
  size_le h := by cases h

/-- A token that is not the end of the input leaves fewer when it is taken. -/
theorem remaining_take_lt {c c' : Lookahead σ} {t : Token} (h : take.run c = .ok t c')
    (hc : c.kind ≠ .eof) : c'.remaining < c.remaining := by
  have := Lookahead.remaining_consume (Lookahead.consume_of_adaptExcept h)
  have := Token.weight_pos hc
  omega

/-- A terminal other than the end of the input takes a token. -/
theorem consumes_terminal {kind : Terminal} (hk : kind ≠ .eof) :
    (terminal kind : TokenRule σ Unit).Consumes := by
  refine Rule.Consumes.bind (fun c t c' h => ?_) _
  have := Lookahead.remaining_consume (Lookahead.consume_of_matchKind h)
  have := Token.weight_pos fun hc => hk ((Lookahead.kind_of_matchKind h).symm.trans hc)
  omega

/-- Takes tokens as long as their kinds satisfy `p`, and after each one reads what `after` says. -/
def many (p : Terminal → Bool) (after : Token → TokenRule σ Unit)
    (p_eof : p .eof = false := by decide) : TokenRule σ Unit :=
  Rule.repeatWhile (fun c => p c.kind) (take >>= after) fun c c' hc h => by
    rw [Rule.run_bind] at h
    split at h
    · next ht =>
      have hk : c.kind ≠ .eof := by
        intro hk
        rw [hk, p_eof] at hc
        cases hc
      exact Nat.lt_of_le_of_lt ((after _).size_le h) (remaining_take_lt ht hk)
    · cases h

/-- A loop takes a token that fits, reads what comes after it and goes on, or takes nothing. -/
theorem run_many (p : Terminal → Bool) (after : Token → TokenRule σ Unit) (p_eof : p .eof = false)
    (c : Lookahead σ) :
    (many p after p_eof).run c =
      if p c.kind then ((take >>= after) >>= fun _ => many p after p_eof).run c else .ok () c :=
  Rule.run_repeatWhile ..

end TokenRule

end LdapFilter
