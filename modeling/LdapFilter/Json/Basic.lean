/-!
# JSON values

The values of the data format, as far as reports and diagnostics use them. The only numbers are
natural ones. What the format allows beyond that can be read, and is kept without its content:
`otherNumber` is any number that is not written as a natural one, and a text is `none` where
escapes spell half of a surrogate pair, for that is no text.
-/

namespace LdapFilter

/-- A value of the data format. -/
inductive Json where
  | null
  | bool (b : Bool)
  | natural (n : Nat)
  | otherNumber
  | string (text : Option String)
  | array (items : List Json)
  | object (members : List (Option String × Json))

namespace Json

/-- A text. -/
def text (s : String) : Json :=
  string (some s)

/-- An object with the given members. -/
def ofMembers (members : List (String × Json)) : Json :=
  object (members.map fun m => (some m.1, m.2))

/-- The text that a value is. -/
def text? : Json → Option String
  | string t => t
  | _ => none

/-- The fields `names` of a record: an object that has each of them at most once, or the array
of all of them in order. Members of other names are allowed, as long as their names are texts. -/
def record? (names : List String) : Json → Option (List (Option Json))
  | array items => if items.length = names.length then some (items.map some) else none
  | object members =>
    if members.all fun m => m.1.isSome then
      names.mapM fun name =>
        match members.filter fun m => m.1 = some name with
        | [] => some none
        | [m] => some (some m.2)
        | _ => none
    else none
  | _ => none

/-- A field that may be missing or null, read by `read`. -/
def optional? {α : Type} (read : Json → Option α) : Option Json → Option (Option α)
  | none => some none
  | some null => some none
  | some j => (read j).map some

end Json

end LdapFilter
