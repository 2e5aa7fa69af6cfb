import LdapFilter.CommandLine.Report
import LdapFilter.Text.Escape
import LdapFilter.Filter.File
import LdapFilter.Filter.Samples

/-!
# Running the command line

A run is a function of the arguments and of what the program can read. A command that goes
through an error whose place has its bounds in the wrong order has no outcome; no command
meets one.
-/

namespace LdapFilter.CommandLine

/-- What the program can read. A file that cannot be read has the words of the system for it. -/
structure Environment where
  readFile : String → Except String (List UInt8)
  input : List UInt8

/-- The name and version of the program. -/
def versionLine : String :=
  "ldap-syntax 0.1.0"

/-- A short description of the arguments. -/
def usage : String :=
  "Tokenize and check RFC 4515 LDAP search filters\n\n" ++
    "Usage: ldap-syntax [OPTIONS] <COMMAND>\n\n" ++
    "Commands:\n" ++
    "  tokens <FILTER>     Print the tokens of a filter\n" ++
    "  check [FILTERS]...  Check filters against the RFC 4515 grammar\n" ++
    "                      [--file <FILE>] [--samples]\n" ++
    "  unescape <VALUE>    Decode the `\\XX` escapes of an assertion value\n" ++
    "  explain <ID>        Explain a diagnostic ID (e.g. LDAP2001)\n\n" ++
    "Options:\n" ++
    "      --output <OUTPUT>        [possible values: pretty, json]\n" ++
    "      --bytes                  Lex raw bytes instead of Unicode scalar values\n" ++
    "      --max-depth <MAX_DEPTH>  Maximum nesting depth [default: 256]\n" ++
    "  -v, --verbose...             Log more (-v debug, -vv trace)\n" ++
    "  -h, --help                   Print help\n" ++
    "  -V, --version                Print version"

/-- A line of the log of the command line itself. -/
def logLine (message : String) : LogLine :=
  ⟨.debug, .commandLine, message⟩

/-- The filters of a file, under the name of the file and the number of the line. -/
def fileInputs (label : String) (data : List UInt8) : List FilterInput :=
  (FilterFile.filters data).map fun f => ⟨label ++ ":" ++ toString f.1, f.2⟩

/-- Texts as filters to check, under a word and the number of each. -/
def namedInputs (word : String) (texts : List String) : List FilterInput :=
  (texts.zipIdx 1).map fun t =>
    ⟨"<" ++ word ++ " " ++ toString t.2 ++ ">", Utf8.encodeAll t.1.toList⟩

/-- The filters of the file of a path; a hyphen is the input of the program. -/
def readInputs (env : Environment) (path : String) : Except String (List FilterInput) :=
  if path = "-" then .ok (fileInputs "<stdin>" env.input)
  else
    match env.readFile path with
    | .ok data => .ok (fileInputs path data)
    | .error reason =>
      .error ("failed to read filter file '" ++ path ++ "': " ++ reason)

/-- Every filter to check: the given ones, those of the file, and the samples. -/
def collectInputs (env : Environment) (filters : List String) (file : Option String)
    (samples : Bool) : Except String (List FilterInput) := do
  let ofFile ←
    match file with
    | some path => readInputs env path
    | none => .ok []
  return namedInputs "arg" filters ++ ofFile ++
    if samples then namedInputs "sample" Samples.all else []

/-- Checks filters. -/
def runCheck (config : Config) (format : Format) (inputs : List FilterInput) :
    Except ReversedSpan Outcome := do
  let results ← inputs.mapM fun input => input.result config
  let matched := (results.filter fun r => r.ok).length
  let rejected := results.length - matched
  let ok : Bool := rejected = 0
  let log := inputs.flatMap fun input => checkLog input.filter config
  match format with
  | .json =>
    return jsonOutcome ok
      (.ofMembers
        [("ok", .bool ok), ("mode", .text config.mode.name),
          ("results", .array (results.map CheckResult.toJson))])
      log
  | .pretty =>
    return {
      exit := exitCode ok
      output := String.join ((results.filter fun r => r.ok).map fun r =>
        outputLine (r.filter ++ " matches"))
      report := (results.flatMap fun r => r.diagnostics.flatMap reportOf) ++
        [.line (summary matched rejected)]
      log }

/-- A token as an object. -/
def tokenJson (t : Token) : Json :=
  .ofMembers
    [("kind", .text t.kind.name), ("text", .text t.text), ("position", .natural t.position),
      ("span", t.span.toJson)]

/-- Prints the tokens of a source. -/
def runTokens {σ : Type} [TokenSource σ] (mode : Mode) (format : Format) (source : σ) :
    Except ReversedSpan Outcome := do
  let (tokens, failure) := TokenSource.readAll source
  let diagnostics ← failure.toList.mapM LexError.diagnostic
  let log := tokensLog source
  match format with
  | .json =>
    return jsonOutcome failure.isNone
      (.ofMembers
        [("ok", .bool failure.isNone), ("mode", .text mode.name),
          ("tokens", .array (tokens.map tokenJson)),
          ("diagnostics", .array (diagnostics.map Diagnostic.toJson))])
      log
  | .pretty =>
    return ⟨exitCode failure.isNone,
      String.join (tokens.map fun t => outputLine t.display),
      diagnostics.flatMap reportOf, log⟩

/-- Decodes the escapes of a value. -/
def runUnescape (format : Format) (value : String) : Except ReversedSpan Outcome :=
  match Escape.decode value, format with
  | .ok octets, .json =>
    return jsonOutcome true
      (.ofMembers
        [("ok", .bool true),
          ("text",
            match Utf8.decode? octets with
            | some text => .text (String.ofList text)
            | none => .null),
          ("bytes", .array (octets.map fun b => .natural b.toNat))])
      []
  | .ok octets, .pretty =>
    return ⟨exitCode true, outputLine (String.ofList (Utf8.decodeLossy octets)), [], []⟩
  | .error errors, .json => do
    let diagnostics ← errors.mapM (EscapeError.diagnostic value)
    return jsonOutcome false
      (.ofMembers
        [("ok", .bool false), ("diagnostics", .array (diagnostics.map Diagnostic.toJson))])
      []
  | .error errors, .pretty => do
    let diagnostics ← errors.mapM (EscapeError.diagnostic value)
    return ⟨exitCode false, "", diagnostics.flatMap reportOf, []⟩

/-- A text that a terminal shows in cyan. -/
def cyan (text : String) : String :=
  "\x1b[36m" ++ text ++ "\x1b[0m"

/-- Explains a code. -/
def runExplain (format : Format) (id : String) : Outcome :=
  match format, Code.explain? id with
  | .json, explanation =>
    jsonOutcome true
      (.ofMembers
        [("id", .text id),
          ("explanation",
            match explanation with
            | some text => .text text
            | none => .null)])
      []
  | .pretty, some text => ⟨exitCode true, outputLine (cyan id ++ ": " ++ text), [], []⟩
  | .pretty, none =>
    ⟨exitCode true, outputLine (id ++ ": (no explanation available)"), [], []⟩

/-- The outcome with lines in front of its log. -/
def Outcome.after (lines : List LogLine) (o : Outcome) : Outcome :=
  { o with log := lines ++ o.log }

/-- Runs a command, with everything that can be logged in its log. -/
def runCommand (env : Environment) (config : Config) (format : Format) :
    Command → Except ReversedSpan Outcome
  | .tokens filter =>
    match config.mode with
    | .codePoint => runTokens config.mode format (CharCursor.ofList filter.toList)
    | .byte => runTokens config.mode format (ByteCursor.ofList (Utf8.encodeAll filter.toList))
  | .check filters file samples =>
    match collectInputs env filters file samples with
    | .error message => return failure format message []
    | .ok inputs => do
      let counted := logLine ("checking " ++ toString inputs.length ++ " filters")
      if inputs.isEmpty then
        return failure format
          "no filters given; pass filters as arguments, --file PATH or --samples" [counted]
      else return (← runCheck config format inputs).after [counted]
  | .unescape value => runUnescape format value
  | .explain id => return runExplain format id

/-- The first line of the log: how the run is set up. -/
def settingsLine (config : Config) (format : Format) : LogLine :=
  let mode :=
    match config.mode with
    | .codePoint => "CodePoint"
    | .byte => "Byte"
  let output :=
    match format with
    | .pretty => "Pretty"
    | .json => "Json"
  logLine ("ParseConfig \x7b mode: " ++ mode ++ ", max_depth: " ++ toString config.limit ++
    " \x7d, output " ++ output)

/-- Does what an invocation asks for. -/
def runInvocation (env : Environment) (i : Invocation) : Except ReversedSpan Outcome := do
  let o ← runCommand env i.config i.format i.command
  let o := o.after [settingsLine i.config i.format]
  return { o with log := o.log.filter (LogLine.isShown i.verbosity) }

/-- Runs the program with the given arguments. -/
def run (env : Environment) (arguments : List Argument) : Except ReversedSpan Outcome :=
  match Invocation.ofArguments arguments with
  | .ok i => runInvocation env i
  | .error .version => return ⟨0, outputLine versionLine, [], []⟩
  | .error .help => return ⟨0, outputLine usage, [], []⟩
  | .error .misuse => return ⟨2, "", [], []⟩

end LdapFilter.CommandLine
