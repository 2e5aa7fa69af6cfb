import LdapFilter.Diagnostic.Basic
import LdapFilter.Json.Parser
import LdapFilter.Json.Printer

/-!
# Diagnostics as JSON

A diagnostic is written as an object of its fields in a fixed order; an absent span or context is
left out. It is read from such an object with its fields in any order and other members beside
them, or from the array of its fields.
-/

namespace LdapFilter

/-- A span as an object. -/
def Span.toJson (s : Span) : Json :=
  .ofMembers [("start", .natural s.start), ("end", .natural s.stop)]

/-- An offset: a natural number of 64 bits. -/
def Json.offset? : Json → Option Nat
  | .natural n => if n < UInt64.size then some n else none
  | _ => none

/-- The span that an object or an array writes; its bounds may be in either order. -/
def Span.ofJson? (j : Json) : Option Span :=
  match j.record? ["start", "end"] with
  | some [some start, some stop] => do return ⟨← start.offset?, ← stop.offset?⟩
  | _ => none

/-- A context as an object. -/
def Context.toJson (c : Context) : Json :=
  .ofMembers (c.entries.map fun e => (e.1, .text e.2))

/-- A member of a context: a name and a text. -/
def Context.entry? (m : Option String × Json) : Option (String × String) := do
  return (← m.1, ← m.2.text?)

/-- The context that an object writes; of a repeated name the last text counts. -/
def Context.ofJson? : Json → Option Context
  | .object members => (members.mapM entry?).map ofList
  | _ => none

/-- The severity that a word writes, alone or as the name of an empty value. -/
def Severity.ofJson? : Json → Option Severity
  | .string (some "error") => some .error
  | .object [(some "error", .null)] => some .error
  | _ => none

namespace Diagnostic

/-- A diagnostic as an object. -/
def toJson (d : Diagnostic) : Json :=
  .ofMembers <|
    [("id", .text d.id), ("severity", .text d.severity.name), ("message", .text d.message)] ++
      (d.span.toList.map fun s => ("span", s.toJson)) ++
      (d.context.toList.map fun c => ("context", c.toJson))

/-- The diagnostic that an object or an array writes. -/
def ofJson? (j : Json) : Option Diagnostic :=
  match j.record? ["id", "severity", "message", "span", "context"] with
  | some [some id, some severity, some message, span, context] => do
    return ⟨← id.text?, ← Severity.ofJson? severity, ← message.text?,
      ← Json.optional? Span.ofJson? span, ← Json.optional? Context.ofJson? context⟩
  | _ => none

/-- The diagnostic that a text writes. -/
def parse? (text : String) : Option Diagnostic :=
  (Json.parse? text).bind ofJson?

end Diagnostic

end LdapFilter
