import LdapFilter.Filter.Check
import LdapFilter.CommandLine.Invocation

/-!
# Reports of the command line

In the pretty format diagnostics are reported beside the output: each with its message, a label
at the octets it is about, and the explanation of its code. In the other format everything is one
JSON value on the output.
-/

namespace LdapFilter.CommandLine

/-- A part of a report. -/
inductive ReportItem where
  /-- A line of its own. -/
  | line (text : String)
  /-- The text at the octets at fault. -/
  | label (text : String)
  /-- What to do about it. -/
  | help (text : String)
  deriving DecidableEq

/-- The label of a diagnostic: what was expected and what was found if the context tells it, else
the context, else the message. -/
def labelText (d : Diagnostic) : String :=
  match d.context with
  | none => d.message
  | some context =>
    if context.entries.isEmpty then d.message
    else
      match context.get? "expected", context.get? "found" with
      | some expected, some found =>
        "expected " ++ expected ++ ", found <'" ++ (context.get? "text").getD "" ++ "', " ++
          found ++ ">"
      | _, _ => ", ".intercalate (context.entries.map fun e => e.1 ++ "=" ++ e.2)

/-- The report of a diagnostic. -/
def reportOf (d : Diagnostic) : List ReportItem :=
  match d.span with
  | some _ =>
    [.line ("[" ++ d.id ++ "] Error: " ++ d.message), .label (labelText d)] ++
      d.explanation?.toList.map .help
  | none => .line d.display :: d.explanation?.toList.map fun text => .line ("  = help: " ++ text)

/-- The last line of the report of a check. -/
def summary (matched rejected : Nat) : String :=
  toString (matched + rejected) ++ " filter" ++ (if matched + rejected = 1 then "" else "s") ++
    " checked: " ++ toString matched ++ " matched" ++
    (if rejected = 0 then "" else ", " ++ toString rejected ++ " rejected")

/-- What a run of the program gives. -/
structure Outcome where
  /-- The exit code: 0 for success, 1 for rejected input or a failure, 2 for misuse. -/
  exit : Nat
  output : String
  report : List ReportItem
  log : List LogLine

/-- A text on a line of its own. -/
def outputLine (text : String) : String :=
  text ++ "\n"

/-- The exit code of a command. -/
def exitCode (ok : Bool) : Nat :=
  if ok then 0 else 1

/-- The outcome of a command whose result is the value `j`. -/
def jsonOutcome (ok : Bool) (j : Json) (log : List LogLine) : Outcome :=
  ⟨exitCode ok, outputLine j.pretty, [], log⟩

/-- The outcome of a command that fails for the reason `message`. -/
def failure (format : Format) (message : String) (log : List LogLine) : Outcome :=
  match format with
  | .json =>
    jsonOutcome false
      (.ofMembers
        [("success", .bool false), ("error", .text "command_failed"),
          ("message", .text message)])
      log
  | .pretty => ⟨exitCode false, "", [.line ("error: " ++ message)], log⟩

end LdapFilter.CommandLine
