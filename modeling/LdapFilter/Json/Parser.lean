import LdapFilter.Json.Basic

/-!
# Reading JSON

A reader takes what it reads from the front of a text and leaves the rest. `parse?` reads a text
that is one value, with blanks around it and nothing else.
-/

namespace LdapFilter.Json

/-- The text without the blanks at its front. -/
def skipBlanks (text : List Char) : List Char :=
  text.dropWhile fun c => c = ' ' || c = '\n' || c = '\t' || c = '\r'

/-- The value of a hexadecimal digit, in either case. -/
def digitValue? (c : Char) : Option Nat :=
  if c.isDigit then some (c.toNat - '0'.toNat)
  else if 'a' ≤ c ∧ c ≤ 'f' then some (c.toNat - 'a'.toNat + 10)
  else if 'A' ≤ c ∧ c ≤ 'F' then some (c.toNat - 'A'.toNat + 10)
  else none

/-- The number that four hexadecimal digits write. -/
def unit? (a b c d : Char) : Option Nat := do
  return (((← digitValue? a) * 16 + (← digitValue? b)) * 16 + (← digitValue? c)) * 16 +
    (← digitValue? d)

/-- Whether a number is the first half of a surrogate pair. -/
def isHighSurrogate (unit : Nat) : Bool :=
  0xD800 ≤ unit && unit ≤ 0xDBFF

/-- Whether a number is the second half of a surrogate pair. -/
def isLowSurrogate (unit : Nat) : Bool :=
  0xDC00 ≤ unit && unit ≤ 0xDFFF

/-- The character of a surrogate pair. -/
def ofPair (high low : Nat) : Char :=
  Char.ofNat (0x10000 + (high - 0xD800) * 0x400 + (low - 0xDC00))

/-- The character of a number that is no half of a pair. -/
def ofUnit? (unit : Nat) : Option Char :=
  if isHighSurrogate unit || isLowSurrogate unit then none else some (Char.ofNat unit)

/-- The character that a backslash and a letter stand for. -/
def ofLetter? : Char → Option Char
  | '"' => some '"'
  | '\\' => some '\\'
  | '/' => some '/'
  | 'b' => some '\x08'
  | 'f' => some '\x0c'
  | 'n' => some '\n'
  | 'r' => some '\r'
  | 't' => some '\t'
  | _ => none

/-- A string read with one more character in front; half of a pair leaves no text. -/
def push (c : Option Char) (read : Option (List Char) × List Char) :
    Option (List Char) × List Char :=
  (do return (← c) :: (← read.1), read.2)

/-- Reads a string after its opening quotation mark. -/
def readText : List Char → Option (Option (List Char) × List Char)
  | [] => none
  | '"' :: rest => some (some [], rest)
  | '\\' :: 'u' :: a :: b :: c :: d :: '\\' :: 'u' :: e :: f :: g :: h :: rest =>
    match unit? a b c d, unit? e f g h with
    | some first, some second =>
      if isHighSurrogate first && isLowSurrogate second then
        (readText rest).map (push (some (ofPair first second)))
      else (readText ('\\' :: 'u' :: e :: f :: g :: h :: rest)).map (push (ofUnit? first))
    | _, _ => none
  | '\\' :: 'u' :: a :: b :: c :: d :: rest =>
    match unit? a b c d with
    | some unit => (readText rest).map (push (ofUnit? unit))
    | none => none
  | '\\' :: c :: rest =>
    match ofLetter? c with
    | some ch => (readText rest).map (push (some ch))
    | none => none
  | c :: rest => if c.toNat < 0x20 then none else (readText rest).map (push (some c))

/-- Reads a digit and all digits after it. -/
def readDigits (text : List Char) : Option (List Char × List Char) :=
  match text.span Char.isDigit with
  | ([], _) => none
  | (digits, rest) => some (digits, rest)

/-- Reads the whole part of a number: a zero alone, or digits that do not begin with one. -/
def readWhole : List Char → Option (List Char × List Char)
  | '0' :: rest => some (['0'], rest)
  | text => readDigits text

/-- Skips the fraction of a number, if it has one. -/
def skipFraction : List Char → Option (List Char)
  | '.' :: rest => (readDigits rest).map (·.2)
  | text => some text

/-- Skips the sign of an exponent, if it has one. -/
def skipSign : List Char → List Char
  | '+' :: rest => rest
  | '-' :: rest => rest
  | text => text

/-- Skips the exponent of a number, if it has one. -/
def skipExponent : List Char → Option (List Char)
  | 'e' :: rest => (readDigits (skipSign rest)).map (·.2)
  | 'E' :: rest => (readDigits (skipSign rest)).map (·.2)
  | text => some text

/-- The number that decimal digits write. -/
def ofDigits (digits : List Char) : Nat :=
  digits.foldl (fun n c => n * 10 + (c.toNat - '0'.toNat)) 0

/-- Reads a number without a sign. -/
def readUnsigned (text : List Char) : Option (Json × List Char) := do
  let (whole, afterWhole) ← readWhole text
  let rest ← skipExponent (← skipFraction afterWhole)
  return (if rest.length = afterWhole.length then natural (ofDigits whole) else otherNumber, rest)

/-- Reads a number. -/
def readNumber : List Char → Option (Json × List Char)
  | '-' :: rest => (readUnsigned rest).map fun r => (otherNumber, r.2)
  | text => readUnsigned text

mutual

/-- Reads a value; `fuel` bounds how many steps into its parts may be taken. -/
def readValue : (fuel : Nat) → List Char → Option (Json × List Char)
  | 0, _ => none
  | fuel + 1, text =>
    match skipBlanks text with
    | 'n' :: 'u' :: 'l' :: 'l' :: rest => some (null, rest)
    | 't' :: 'r' :: 'u' :: 'e' :: rest => some (bool true, rest)
    | 'f' :: 'a' :: 'l' :: 's' :: 'e' :: rest => some (bool false, rest)
    | '"' :: rest => (readText rest).map fun r => (string (r.1.map String.ofList), r.2)
    | '[' :: rest =>
      match skipBlanks rest with
      | ']' :: rest => some (array [], rest)
      | rest => (readItems fuel rest).map fun r => (array r.1, r.2)
    | '{' :: rest =>
      match skipBlanks rest with
      | '}' :: rest => some (object [], rest)
      | rest => (readMembers fuel rest).map fun r => (object r.1, r.2)
    | text => readNumber text

/-- Reads the items of an array, of which there is one at least, and its closing bracket. -/
def readItems : (fuel : Nat) → List Char → Option (List Json × List Char)
  | 0, _ => none
  | fuel + 1, text => do
    let (j, rest) ← readValue fuel text
    match skipBlanks rest with
    | ',' :: rest => (readItems fuel rest).map fun r => (j :: r.1, r.2)
    | ']' :: rest => some ([j], rest)
    | _ => none

/-- Reads the members of an object, of which there is one at least, and its closing brace. -/
def readMembers : (fuel : Nat) → List Char → Option (List (Option String × Json) × List Char)
  | 0, _ => none
  | fuel + 1, text =>
    match skipBlanks text with
    | '"' :: rest => do
      let (name, rest) ← readText rest
      match skipBlanks rest with
      | ':' :: rest => do
        let (j, rest) ← readValue fuel rest
        let member := (name.map String.ofList, j)
        match skipBlanks rest with
        | ',' :: rest => (readMembers fuel rest).map fun r => (member :: r.1, r.2)
        | '}' :: rest => some ([member], rest)
        | _ => none
      | _ => none
    | _ => none

end

/-- The value that a text writes. Every two steps into parts take a character at least, so the
steps suffice. -/
def parse? (text : String) : Option Json :=
  match readValue (2 * text.toList.length + 2) text.toList with
  | some (j, rest) => if skipBlanks rest = [] then some j else none
  | none => none

end LdapFilter.Json
