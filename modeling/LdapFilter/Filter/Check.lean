import LdapFilter.Diagnostic.Json
import LdapFilter.Filter.Log

/-!
# Checking raw filters

A raw filter is a sequence of octets that need not spell a text. Where it does not, it is read by
octets in either mode, so that the error tells where its spelling fails.
-/

namespace LdapFilter

/-- Whether a raw filter is a filter. -/
def check (filter : List UInt8) (config : Config) : Except ParseError Unit :=
  match config.mode, Utf8.decode? filter with
  | .codePoint, some text => parse (String.ofList text) config
  | _, _ => parseBytes filter config.limit

/-- The log of `check`. -/
def checkLog (filter : List UInt8) (config : Config) : List LogLine :=
  match config.mode, Utf8.decode? filter with
  | .codePoint, some text => parseLog (String.ofList text) config
  | _, _ => parseBytesLog filter config.limit

/-- A raw filter to check, and the name to report it under. -/
structure FilterInput where
  name : String
  filter : List UInt8

/-- A raw filter as a report shows it. -/
def FilterInput.text (input : FilterInput) : String :=
  String.ofList (Utf8.decodeLossy input.filter)

/-- What checking a raw filter has found. -/
structure CheckResult where
  name : String
  filter : String
  ok : Bool
  diagnostics : List Diagnostic

/-- What checking an input finds. -/
def FilterInput.result (input : FilterInput) (config : Config) :
    Except ReversedSpan CheckResult :=
  match check input.filter config with
  | .ok _ => .ok ⟨input.name, input.text, true, []⟩
  | .error e => do return ⟨input.name, input.text, false, [← e.diagnostic]⟩

/-- A result as an object. -/
def CheckResult.toJson (r : CheckResult) : Json :=
  .ofMembers
    [("name", .text r.name), ("filter", .text r.filter), ("ok", .bool r.ok),
      ("diagnostics", .array (r.diagnostics.map Diagnostic.toJson))]

end LdapFilter
