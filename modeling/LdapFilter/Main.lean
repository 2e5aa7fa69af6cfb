import LdapFilter.CommandLine.Run

/-!
# The program

Reads what the command line may need, runs it, and writes its outcome.
-/

open LdapFilter LdapFilter.CommandLine

/-- Reads all that is left of a stream. -/
partial def readAll (stream : IO.FS.Stream) (read : ByteArray) : IO ByteArray := do
  let more ← stream.read 65536
  if more.isEmpty then return read else readAll stream (read ++ more)

/-- The words of the system for a failure, with its number. -/
def systemWords : IO.Error → String
  | .noFileOrDirectory _ code _ => "No such file or directory (os error " ++ toString code ++ ")"
  | .permissionDenied _ code _ => "Permission denied (os error " ++ toString code ++ ")"
  | .inappropriateType _ code details => details ++ " (os error " ++ toString code ++ ")"
  | e => toString e

/-- The content of a file. -/
def readFile (path : String) : IO (Except String (List UInt8)) := do
  try
    return .ok (← IO.FS.readBinFile path).toList
  catch e =>
    return .error (systemWords e)

/-- What a command line can read. -/
def environment (arguments : List Argument) : IO Environment := do
  match Invocation.ofArguments arguments with
  | .ok ⟨_, _, _, .check _ (some "-") _⟩ =>
    let input ← readAll (← IO.getStdin) .empty
    return ⟨fun _ => .error "", input.toList⟩
  | .ok ⟨_, _, _, .check _ (some path) _⟩ =>
    let content ← readFile path
    return ⟨fun _ => content, []⟩
  | _ => return ⟨fun _ => .error "", []⟩

/-- A part of a report on lines of its own. -/
def itemText : ReportItem → String
  | .line text => text
  | .label text => "  " ++ text
  | .help text => "  Help: " ++ text

def main (arguments : List String) : IO UInt32 := do
  let arguments := arguments.map fun a => Utf8.encodeAll a.toList
  match run (← environment arguments) arguments with
  | .error reversed =>
    IO.eprintln reversed.message
    return 101
  | .ok outcome =>
    for line in outcome.log do
      IO.eprintln line.display
    for item in outcome.report do
      IO.eprintln (itemText item)
    if outcome.exit = 2 then
      IO.eprintln usage
    IO.print outcome.output
    return outcome.exit.toUInt32
