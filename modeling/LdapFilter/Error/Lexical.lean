import LdapFilter.Diagnostic.Basic
import LdapFilter.Text.Quoted

/-!
# Lexical errors

Where no token can be read the input holds NUL, an octet that begins no character, or the
beginning of a character that is not carried on as it announces. Each error knows its place,
its code and its diagnostic. A place given with its bounds in the wrong order has no span.
-/

namespace LdapFilter

/-- Why no token can be read. -/
inductive LexError where
  /-- A character that is no terminal. -/
  | invalidCharacter (character : Char) (position offset : Nat)
  /-- An octet that begins no character. -/
  | invalidByte (byte : UInt8) (offset : Nat)
  /-- The octet `lead` announces `length` octets, and the one at `fault` is missing or wrong. -/
  | malformedSequence (lead : UInt8) (offset length fault : Nat)
  deriving DecidableEq

namespace LexError

/-- An octet as messages show it. -/
def showByte (b : UInt8) : String :=
  "0x" ++ Text.upperHex 2 b.toNat

/-- What went wrong, in words. -/
def message : LexError → String
  | invalidCharacter c position _ =>
    "invalid character: " ++ Text.quoteChar c ++ " at position " ++ toString position
  | invalidByte b offset => "invalid byte: " ++ showByte b ++ " at offset " ++ toString offset
  | malformedSequence lead offset length _ =>
    "malformed UTF-8 sequence: lead byte " ++ showByte lead ++ " at offset " ++ toString offset ++
      " needs " ++ toString length ++ " bytes"

/-- Where reading stopped, in units of the input. -/
def position : LexError → Nat
  | invalidCharacter _ position _ => position
  | invalidByte _ offset => offset
  | malformedSequence _ _ _ fault => fault

/-- The octets at fault. -/
def span : LexError → Except ReversedSpan Span
  | invalidCharacter c _ offset => Span.ofBounds? offset (offset + c.utf8Size)
  | invalidByte _ offset => Span.ofBounds? offset (offset + 1)
  | malformedSequence _ offset _ fault => Span.ofBounds? offset fault

/-- The code of the error. -/
def code : LexError → Code
  | invalidCharacter .. => .invalidCharacter
  | invalidByte .. => .invalidByte
  | malformedSequence .. => .malformedSequence

/-- The offending character or octet, by its number. -/
def symbol : LexError → String
  | invalidCharacter c _ _ => "U+" ++ Text.upperHex 4 c.toNat
  | invalidByte b _ => showByte b
  | malformedSequence lead _ _ _ => showByte lead

/-- The error as a diagnostic. -/
def diagnostic (e : LexError) : Except ReversedSpan Diagnostic := do
  let span ← e.span
  return (Diagnostic.ofCode e.code e.message span).withContext
    [("position", toString e.position), ("symbol", e.symbol)]

end LexError

end LdapFilter
