import LdapFilter.Diagnostic.Basic
import LdapFilter.Text.Quoted
import LdapFilter.Text.Utf8

/-!
# Escapes of assertion values

In an assertion value a backslash and two hexadecimal digits stand for an octet. A value is
scanned octet by octet: a good escape is passed as a whole, after a bad one the scan goes on
behind its backslash, and a backslash with fewer than two octets after it ends the scan.
`decode` gives the octets of a value and `validate` only its bad escapes.
-/

namespace LdapFilter

/-- What is wrong with an escape. -/
inductive EscapeError where
  /-- The backslash at `offset` is not followed by two hexadecimal digits but by two octets or more;
  `text` is the backslash and the two characters after it, or the one after it if it is the last. -/
  | invalid (offset : Nat) (text : String)
  /-- The value ends before two digits can follow the backslash at `offset`. -/
  | incomplete (offset : Nat)
  deriving DecidableEq

namespace EscapeError

/-- Where the backslash stands, in octets. -/
def offset : EscapeError → Nat
  | invalid offset _ => offset
  | incomplete offset => offset

/-- What is wrong, in words. -/
def message : EscapeError → String
  | invalid offset text =>
    "invalid escape sequence " ++ Text.quote text ++ " at offset " ++ toString offset ++
      " (expected two hex digits 0-9, A-F after '\\')"
  | incomplete offset =>
    "incomplete escape sequence at offset " ++ toString offset ++
      " (expected '\\XX' but the value ends)"

/-- The code of the error. -/
def code : EscapeError → Code
  | invalid .. => .invalidEscape
  | incomplete _ => .incompleteEscape

/-- The octets of the bad escape in the value `value`. -/
def span (value : String) : EscapeError → Except ReversedSpan Span
  | invalid offset text => Span.ofBounds? offset (offset + text.utf8ByteSize)
  | incomplete offset => Span.ofBounds? offset value.utf8ByteSize

/-- The error in the value `value` as a diagnostic. -/
def diagnostic (value : String) (e : EscapeError) : Except ReversedSpan Diagnostic := do
  let span ← e.span value
  return .ofCode e.code e.message span

end EscapeError

namespace Escape

/-- The value of a hexadecimal digit, in either case. -/
def digitValue? (b : UInt8) : Option UInt8 :=
  if 0x30 ≤ b ∧ b ≤ 0x39 then some (b - 0x30)
  else if 0x41 ≤ b ∧ b ≤ 0x46 then some (b - 0x41 + 10)
  else if 0x61 ≤ b ∧ b ≤ 0x66 then some (b - 0x61 + 10)
  else none

/-- The backslash. -/
def backslash : UInt8 :=
  0x5C

/-- The octet that two hexadecimal digits write. -/
def octet? (high low : UInt8) : Option UInt8 := do
  return (← digitValue? high) * 16 + (← digitValue? low)

/-- The text of the bad escape at `offset`: its backslash and the two characters after it, as far as
there are two. -/
def textAt (value : List Char) (offset : Nat) : String :=
  String.ofList (go value offset)
where
  /-- The first three characters behind `offset` octets. -/
  go : List Char → Nat → List Char
    | [], _ => []
    | c :: rest, offset => if offset = 0 then (c :: rest).take 3 else go rest (offset - c.utf8Size)

/-- The bad escapes among the octets `bytes` of `value` that begin at `offset`. -/
def errorsFrom (value : List Char) (offset : Nat) : (bytes : List UInt8) → List EscapeError
  | [] => []
  | b :: rest =>
    if b ≠ backslash then errorsFrom value (offset + 1) rest
    else
      match rest with
      | high :: low :: after =>
        match octet? high low with
        | some _ => errorsFrom value (offset + 3) after
        | none =>
          .invalid offset (textAt value offset) ::
            errorsFrom value (offset + 1) (high :: low :: after)
      | _ => [.incomplete offset]

/-- The bad escapes of a value, in order. -/
def validate (value : String) : List EscapeError :=
  errorsFrom value.toList 0 (Utf8.encodeAll value.toList)

/-- The octets that `bytes` stands for and its bad escapes; `bytes` are the octets of `value`
that begin at `offset`. -/
def decodeFrom (value : List Char) (offset : Nat) :
    (bytes : List UInt8) → List UInt8 × List EscapeError
  | [] => ([], [])
  | b :: rest =>
    if b ≠ backslash then
      let (octets, errors) := decodeFrom value (offset + 1) rest
      (b :: octets, errors)
    else
      match rest with
      | high :: low :: after =>
        match octet? high low with
        | some octet =>
          let (octets, errors) := decodeFrom value (offset + 3) after
          (octet :: octets, errors)
        | none =>
          let (octets, errors) := decodeFrom value (offset + 1) (high :: low :: after)
          (b :: octets, .invalid offset (textAt value offset) :: errors)
      | _ => ([], [.incomplete offset])

/-- The octets that a value stands for, or its bad escapes in order. -/
def decode (value : String) : Except (List EscapeError) (List UInt8) :=
  match decodeFrom value.toList 0 (Utf8.encodeAll value.toList) with
  | (octets, []) => .ok octets
  | (_, errors) => .error errors

end Escape

end LdapFilter
