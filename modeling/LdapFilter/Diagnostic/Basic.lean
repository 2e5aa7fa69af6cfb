import LdapFilter.Diagnostic.Code
import LdapFilter.Diagnostic.Context
import LdapFilter.Span

/-!
# Diagnostics

A diagnostic is what a failure tells a person or a tool: a code, a severity, a message, and,
where there is one, the span of the input it is about and a context for tooling. Its code is a
text, because a diagnostic read from elsewhere may carry one that this library does not know.
-/

namespace LdapFilter

/-- How serious a diagnostic is. -/
inductive Severity where
  | error
  deriving DecidableEq

/-- The word for a severity. -/
def Severity.name : Severity → String
  | .error => "error"

/-- What a failure tells. -/
structure Diagnostic where
  id : String
  severity : Severity
  message : String
  span : Option Span
  context : Option Context
  deriving DecidableEq

namespace Diagnostic

/-- An error with a code of this library. -/
def ofCode (code : Code) (message : String) (span : Span) : Diagnostic :=
  ⟨code.id, .error, message, some span, none⟩

/-- The diagnostic with a context. -/
def withContext (d : Diagnostic) (context : List (String × String)) : Diagnostic :=
  { d with context := some (.ofList context) }

/-- The explanation of the code, if this library knows it. -/
def explanation? (d : Diagnostic) : Option String :=
  Code.explain? d.id

/-- Whether a diagnostic is an error. -/
def isError (d : Diagnostic) : Bool :=
  d.severity = .error

/-- A diagnostic on one line. -/
def display (d : Diagnostic) : String :=
  d.severity.name ++ "[" ++ d.id ++ "]: " ++ d.message

end Diagnostic

end LdapFilter
