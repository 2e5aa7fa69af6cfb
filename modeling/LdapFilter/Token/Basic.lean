import LdapFilter.Span
import LdapFilter.Terminal

/-!
# Tokens

A token is a terminal with the text it was read from and its place: `position` counts the
units of the input that it was read from (characters or octets), `span` always counts octets.
The end of the input is a token too, of kind `eof` and without octets.
-/

namespace LdapFilter

/-- A terminal read from an input. -/
structure Token where
  kind : Terminal
  text : String
  position : Nat
  span : Span
  deriving DecidableEq

namespace Token

/-- The text of the token at the end of the input. -/
def eofText : String :=
  "<EOF>"

/-- The token at the end of the input. -/
def eof (position offset : Nat) : Token :=
  ⟨.eof, eofText, position, .empty offset⟩

/-- Whether a token marks the end of the input. -/
def isEof (t : Token) : Bool :=
  t.kind = .eof

/-- How many terminals of the input a token stands for: one, or none at the end. -/
def weight (t : Token) : Nat :=
  if t.isEof then 0 else 1

@[simp] theorem weight_eof (position offset : Nat) : (eof position offset).weight = 0 :=
  rfl

theorem weight_le_one (t : Token) : t.weight ≤ 1 := by
  unfold weight
  split <;> decide

theorem weight_pos {t : Token} (h : t.kind ≠ .eof) : 0 < t.weight := by
  simp [weight, isEof, h]

/-- Whether a token is the letter `letter`, in either case. -/
def isLetter (t : Token) (letter : Char) : Bool :=
  t.kind = .alpha &&
    match t.text.toList with
    | [c] => c.utf8Size = 1 && c.toLower = letter.toLower
    | _ => false

/-- Whether a character is one of `0-9`, `A-F` and `a-f`. -/
def isHexChar (c : Char) : Bool :=
  c.isDigit || ('a' ≤ c && c ≤ 'f') || ('A' ≤ c && c ≤ 'F')

/-- Whether a token is a hexadecimal digit: any digit, or letters of which each is one. -/
def isHexDigit (t : Token) : Bool :=
  match t.kind with
  | .digit => true
  | .alpha => t.text.toList.all isHexChar
  | _ => false

/-- A token as messages show it. -/
def display (t : Token) : String :=
  "<'" ++ t.text ++ "', " ++ t.kind.name ++ ">"

end Token

end LdapFilter
