import LdapFilter.Json.Basic
import LdapFilter.Text.Hex

/-!
# Writing JSON

A value is written either compactly, with its members in the order that it has, or over several
lines with its members in the order of their names. Quotation marks, backslashes and control
characters are escaped, and every other character stands for itself.
-/

namespace LdapFilter.Json

/-- A character as it stands in a string. -/
def escapeChar (c : Char) : List Char :=
  if c = '"' then ['\\', '"']
  else if c = '\\' then ['\\', '\\']
  else if c = '\x08' then ['\\', 'b']
  else if c = '\x0c' then ['\\', 'f']
  else if c = '\n' then ['\\', 'n']
  else if c = '\r' then ['\\', 'r']
  else if c = '\t' then ['\\', 't']
  else if c.toNat < 0x20 then '\\' :: 'u' :: (Text.lowerHex 4 c.toNat).toList
  else [c]

/-- A text as a string; what is no text is written as half of a surrogate pair. -/
def writeText : Option String → List Char
  | some s => '"' :: s.toList.flatMap escapeChar ++ ['"']
  | none => ['"', '\\', 'u', 'd', '8', '0', '0', '"']

/-- `parts` one after another with `separator` between them. -/
def separate (separator : List Char) : List (List Char) → List Char
  | [] => []
  | [part] => part
  | part :: parts => part ++ separator ++ separate separator parts

theorem separate_cons_cons (separator part next : List Char) (parts : List (List Char)) :
    separate separator (part :: next :: parts) =
      part ++ separator ++ separate separator (next :: parts) :=
  rfl

/-- A value that contains no other. -/
def writeAtom : Json → List Char
  | null => ['n', 'u', 'l', 'l']
  | bool true => ['t', 'r', 'u', 'e']
  | bool false => ['f', 'a', 'l', 's', 'e']
  | natural n => Nat.toDigits 10 n
  | string t => writeText t
  | _ => ['-', '0']

mutual

/-- A value on one line, without blanks. -/
def write : Json → List Char
  | array items => '[' :: separate [','] (writeItems items) ++ [']']
  | object members => '{' :: separate [','] (writeMembers members) ++ ['}']
  | j => writeAtom j

/-- Each item of an array. -/
def writeItems : List Json → List (List Char)
  | [] => []
  | j :: rest => write j :: writeItems rest

/-- Each member of an object. -/
def writeMembers : List (Option String × Json) → List (List Char)
  | [] => []
  | (name, j) :: rest => (writeText name ++ ':' :: write j) :: writeMembers rest

end

theorem write_array (items : List Json) :
    write (array items) = '[' :: (separate [','] (writeItems items) ++ [']']) :=
  rfl

theorem write_object (members : List (Option String × Json)) :
    write (object members) = '{' :: (separate [','] (writeMembers members) ++ ['}']) :=
  rfl

theorem writeItems_cons (j : Json) (items : List Json) :
    writeItems (j :: items) = write j :: writeItems items :=
  rfl

theorem writeMembers_cons (name : Option String) (j : Json)
    (members : List (Option String × Json)) :
    writeMembers ((name, j) :: members) =
      (writeText name ++ ':' :: write j) :: writeMembers members :=
  rfl

/-- A value on one line. -/
def compact (j : Json) : String :=
  String.ofList (write j)

/-- The beginning of a line that is `depth` levels deep. -/
def newline (depth : Nat) : List Char :=
  '\n' :: List.replicate (2 * depth) ' '

/-- The items or members `parts` between `opening` and `closing`, each on lines of its own. -/
def block (opening closing : Char) (depth : Nat) (parts : List (List Char)) : List Char :=
  if parts.isEmpty then [opening, closing]
  else
    opening :: newline (depth + 1) ++ separate (',' :: newline (depth + 1)) parts ++
      newline depth ++ [closing]

/-- Named values in the order of their names. -/
def sortByName {α : Type} (members : List (Option String × α)) : List (Option String × α) :=
  members.mergeSort fun a b => a.1.getD "" ≤ b.1.getD ""

mutual

/-- A value over several lines, of which the first is `depth` levels deep. -/
def writeLines (depth : Nat) : Json → List Char
  | array items => block '[' ']' depth (writeItemLines (depth + 1) items)
  | object members =>
    block '{' '}' depth <|
      (sortByName (writeMemberLines (depth + 1) members)).map fun m =>
        writeText m.1 ++ ':' :: ' ' :: m.2
  | j => writeAtom j

/-- Each item of an array. -/
def writeItemLines (depth : Nat) : List Json → List (List Char)
  | [] => []
  | j :: rest => writeLines depth j :: writeItemLines depth rest

/-- Each member of an object: its name and its value. -/
def writeMemberLines (depth : Nat) :
    List (Option String × Json) → List (Option String × List Char)
  | [] => []
  | (name, j) :: rest => (name, writeLines depth j) :: writeMemberLines depth rest

end

/-- A value over several lines. -/
def pretty (j : Json) : String :=
  String.ofList (writeLines 0 j)

end LdapFilter.Json
