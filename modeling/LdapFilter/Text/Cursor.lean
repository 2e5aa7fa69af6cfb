import LdapFilter.Text.Utf8

/-!
# Cursors over an input

A cursor stands before the next unit of an input, a character or an octet, and counts the units
behind it. At the end of the input it stays where it is. Over characters there are two: one holds
the characters that lie ahead, and one keeps its text whole, knows the place by its offset, and
looks up the next character there, where the text can be cut (`TextCursor.textFrom?`).
-/

namespace LdapFilter

/-- A cursor over characters; it counts characters and, beside them, octets. -/
structure CharCursor where
  /-- The characters from the cursor on. -/
  rest : List Char
  /-- How many characters lie behind the cursor. -/
  position : Nat
  /-- How many octets they have. -/
  offset : Nat

namespace CharCursor

/-- The cursor before the first character. -/
def ofList (text : List Char) : CharCursor :=
  ⟨text, 0, 0⟩

/-- The character at the cursor. -/
def current? (c : CharCursor) : Option Char :=
  c.rest.head?

/-- Whether the cursor has reached the end. -/
def atEnd (c : CharCursor) : Bool :=
  c.rest.isEmpty

/-- The cursor one character on. -/
def advance : CharCursor → CharCursor
  | ⟨[], position, offset⟩ => ⟨[], position, offset⟩
  | ⟨ch :: rest, position, offset⟩ => ⟨rest, position + 1, offset + ch.utf8Size⟩

end CharCursor

/-- A cursor over the characters of a text that it keeps whole. -/
structure TextCursor where
  text : String
  /-- How many characters lie behind the cursor. -/
  position : Nat
  /-- How many octets they have. -/
  offset : Nat
  /-- The character at the cursor, none at the end. -/
  current? : Option Char
  deriving DecidableEq

namespace TextCursor

/-- The cursor before the first character. -/
def ofText (text : String) : TextCursor :=
  ⟨text, 0, 0, text.front?⟩

/-- Whether the cursor has reached the end. -/
def atEnd (c : TextCursor) : Bool :=
  c.current?.isNone

/-- A text from an octet on; none if that octet lies inside a character or behind the end. -/
def textFrom? (text : String) (offset : Nat) : Option String.Slice :=
  if h : String.Pos.Raw.IsValid text ⟨offset⟩ then some (text.sliceFrom ⟨⟨offset⟩, h⟩) else none

/-- The cursor behind the character that it holds; none if the text cannot be cut there. -/
def advance? (c : TextCursor) : Option TextCursor :=
  match c.current? with
  | none => some c
  | some ch =>
    (textFrom? c.text (c.offset + ch.utf8Size)).map fun rest =>
      { c with
        position := c.position + 1
        offset := c.offset + ch.utf8Size
        current? := rest.front? }

end TextCursor

/-- A cursor over octets. -/
structure ByteCursor where
  /-- The octets from the cursor on. -/
  rest : List UInt8
  /-- How many octets lie behind the cursor. -/
  position : Nat

namespace ByteCursor

/-- The cursor before the first octet. -/
def ofList (bytes : List UInt8) : ByteCursor :=
  ⟨bytes, 0⟩

/-- The octet at the cursor. -/
def current? (c : ByteCursor) : Option UInt8 :=
  c.rest.head?

/-- Whether the cursor has reached the end. -/
def atEnd (c : ByteCursor) : Bool :=
  c.rest.isEmpty

/-- The cursor one octet on. -/
def advance : ByteCursor → ByteCursor
  | ⟨[], position⟩ => ⟨[], position⟩
  | ⟨_ :: rest, position⟩ => ⟨rest, position + 1⟩

/-- The cursor `n` octets on. -/
def advanceBy : Nat → ByteCursor → ByteCursor
  | 0, c => c
  | n + 1, c => advanceBy n c.advance

theorem rest_advance (c : ByteCursor) : c.advance.rest = c.rest.tail := by
  cases c with
  | mk rest position => cases rest <;> rfl

theorem rest_advanceBy (n : Nat) (c : ByteCursor) : (advanceBy n c).rest = c.rest.drop n := by
  induction n generalizing c with
  | zero => rfl
  | succ n ih => rw [advanceBy, ih, rest_advance, List.drop_tail]

end ByteCursor

end LdapFilter
