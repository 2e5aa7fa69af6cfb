import LdapFilter.Error.Lexical
import LdapFilter.Token.Basic

/-!
# Parse errors

A parse ends early where no token can be read, where a token does not fit the rule at its
place, or where filters nest beyond the limit; and it ends late where input follows the filter.
-/

namespace LdapFilter

/-- What a rule was looking for. -/
inductive Construct where
  /-- One terminal. -/
  | terminal (t : Terminal)
  /-- `=`, `~=`, `>=` or `<=`, or the `:` of an extensible match. -/
  | filterType
  /-- A name or a numeric identifier. -/
  | oid
  /-- An arc of a numeric identifier. -/
  | number
  /-- A character of a name. -/
  | keychar
  /-- A digit of an escape. -/
  | hexDigit
  deriving DecidableEq

/-- A construct as messages show it. -/
def Construct.display : Construct → String
  | terminal t => t.name
  | filterType => "filtertype (=, ~=, >=, <=) or ':'"
  | oid => "descr or numericoid"
  | number => "number"
  | keychar => "ALPHA / DIGIT / HYPHEN"
  | hexDigit => "HEX"

/-- Why an input is not a filter. -/
inductive ParseError where
  /-- No token can be read. -/
  | lexical (error : LexError)
  /-- A rule needs `expected` where `found` stands. -/
  | unexpected (expected : Construct) (found : Token)
  /-- The token at `position` would open a filter inside `limit` others. -/
  | nestingTooDeep (limit position : Nat) (span : Span)
  /-- A complete filter ends before the token `rest`. -/
  | trailing (rest : Token)
  deriving DecidableEq

namespace ParseError

/-- What went wrong, in words. -/
def message : ParseError → String
  | lexical e => e.message
  | unexpected expected found =>
    "expecting " ++ expected.display ++ ": found " ++ found.display ++ " at position " ++
      toString found.position
  | nestingTooDeep limit position _ =>
    "filter nesting exceeds " ++ toString limit ++ " levels at position " ++ toString position
  | trailing rest =>
    "filter does not match completely, rest " ++ rest.display ++ " at position " ++
      toString rest.position

/-- Where the parse stopped, in units of the input. -/
def position : ParseError → Nat
  | lexical e => e.position
  | unexpected _ found => found.position
  | nestingTooDeep _ position _ => position
  | trailing rest => rest.position

/-- The octets at fault. -/
def span : ParseError → Except ReversedSpan Span
  | lexical e => e.span
  | unexpected _ found => .ok found.span
  | nestingTooDeep _ _ span => .ok span
  | trailing rest => .ok rest.span

/-- Whether no token could be read. -/
def isLexical : ParseError → Bool
  | lexical _ => true
  | _ => false

/-- The code of the error. -/
def code : ParseError → Code
  | lexical e => e.code
  | unexpected .. => .unexpectedToken
  | nestingTooDeep .. => .nestingTooDeep
  | trailing _ => .trailingInput

/-- The details of the error for tooling. -/
def context : ParseError → List (String × String)
  | lexical e => [("position", toString e.position), ("symbol", e.symbol)]
  | unexpected expected found =>
    [("expected", expected.display), ("found", found.kind.name),
      ("position", toString found.position), ("text", found.text)]
  | nestingTooDeep limit position _ =>
    [("limit", toString limit), ("position", toString position)]
  | trailing rest =>
    [("found", rest.kind.name), ("position", toString rest.position), ("text", rest.text)]

/-- The error as a diagnostic. -/
def diagnostic (e : ParseError) : Except ReversedSpan Diagnostic := do
  let span ← e.span
  return (Diagnostic.ofCode e.code e.message span).withContext e.context

end ParseError

end LdapFilter
