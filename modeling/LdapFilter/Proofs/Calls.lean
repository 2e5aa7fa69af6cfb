import LdapFilter.Proofs.Modes

/-!
# Lexers called again and again

A lexer may be called any number of times, also after an error and after the end of the input. Over
one text the two lexers stay at one place (`Coupled.after`), as a call gives alike answers there and
leaves both at one place again (`Coupled.call`). So they agree call by call, and their positions
count the characters and the octets before the same place.
-/

namespace LdapFilter

namespace TokenSource

variable {σ : Type} [TokenSource σ]

/-- The source after `n` calls, whatever their outcomes. -/
def after : (n : Nat) → σ → σ
  | 0, s => s
  | n + 1, s => after n (call s).2

end TokenSource

open TokenSource (call after)

variable {text : List Char} {c : CharCursor} {b : ByteCursor}

theorem Coupled.isPlace (h : Coupled text c b) :
    IsPlace text (TokenSource.position c) (TokenSource.position b) := by
  cases h with
  | mk before rest split => exact ⟨before, rest, split, rfl, rfl⟩

/-- However often they are called, the cursors stay at one place. -/
theorem Coupled.after (h : Coupled text c b) (n : Nat) : Coupled text (after n c) (after n b) := by
  induction n generalizing c b with
  | zero => exact h
  | succ n ih => exact ih h.call.2

/-- **Call by call.** Whatever a text is and however often the two lexers have been called, the next
call gives the same token or finds the same NUL, positions apart; and the lexers stand at the same
place. -/
theorem lexers_agree_on_every_call (text : String) (n : Nat) :
    SameCall text.toList (call (after n (CharCursor.ofList text.toList))).1
        (call (after n (ByteCursor.ofList text.toUTF8.data.toList))).1 ∧
      IsPlace text.toList (TokenSource.position (after n (CharCursor.ofList text.toList)))
        (TokenSource.position (after n (ByteCursor.ofList text.toUTF8.data.toList))) := by
  rw [← Utf8.encodeAll_toList]
  have start : Coupled text.toList (CharCursor.ofList text.toList)
      (ByteCursor.ofList (Utf8.encodeAll text.toList)) := .mk [] text.toList rfl
  have coupled := start.after n
  exact ⟨coupled.call.1, coupled.isPlace⟩

end LdapFilter
