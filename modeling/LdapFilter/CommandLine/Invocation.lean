import LdapFilter.Filter.Recognizer

/-!
# What the command line asks for

The arguments are read from left to right, first those of the program itself and then those of
the command that it is to run. `--output`, `--bytes`, `--max-depth` and `--verbose` may stand in
both places, and what stands after the command counts. Reading stops at the first mistake, and
at a request for the version or for help. A value in an argument of its own is looked at when the
reading in its place goes on or ends; the value of an option right before the command is thus
looked at after the arguments of the command.
-/

namespace LdapFilter.CommandLine

/-- How results are written. -/
inductive Format where
  | pretty
  | json
  deriving DecidableEq

/-- The format of a name. -/
def Format.ofName? : String → Option Format
  | "pretty" => some pretty
  | "json" => some json
  | _ => none

/-- A command of the program. -/
inductive Subcommand where
  | tokens
  | check
  | unescape
  | explain
  deriving DecidableEq

/-- The command of a name. -/
def Subcommand.ofName? : String → Option Subcommand
  | "tokens" => some tokens
  | "check" => some check
  | "unescape" => some unescape
  | "explain" => some explain
  | _ => none

/-- Whether the command `command`, or the program before any command, takes an operand after
`count` others. -/
def Subcommand.takesOperand : (command : Option Subcommand) → (count : Nat) → Bool
  | none, _ => false
  | some .check, _ => true
  | some _, count => count = 0

/-- An option of the program or of a command. -/
inductive Switch where
  | output
  | bytes
  | maxDepth
  | verbose
  | version
  | help
  | file
  | samples
  deriving DecidableEq

namespace Switch

/-- Whether an option has a value. -/
def takesValue : Switch → Bool
  | output | maxDepth | file => true
  | _ => false

/-- Whether an option may stand after the command `command`, or before any. -/
def allowedAt (command : Option Subcommand) : Switch → Bool
  | version => command.isNone
  | file | samples => command = some .check
  | _ => true

/-- The long name of an option. -/
def long : Switch → String
  | output => "output"
  | bytes => "bytes"
  | maxDepth => "max-depth"
  | verbose => "verbose"
  | version => "version"
  | help => "help"
  | file => "file"
  | samples => "samples"

/-- The letter of an option, if it has one. -/
def letter? : Switch → Option Char
  | verbose => some 'v'
  | version => some 'V'
  | help => some 'h'
  | file => some 'f'
  | _ => none

/-- Every option. -/
def all : List Switch :=
  [output, bytes, maxDepth, verbose, version, help, file, samples]

/-- The option of a long name. -/
def ofLong? (command : Option Subcommand) (name : String) : Option Switch :=
  all.find? fun s => s.long = name && s.allowedAt command

/-- The option of a letter. -/
def ofLetter? (command : Option Subcommand) (letter : Char) : Option Switch :=
  all.find? fun s => s.letter? = some letter && s.allowedAt command

end Switch

/-- Why reading the arguments stops early. -/
inductive Stop where
  | misuse
  | version
  | help
  deriving DecidableEq

/-- What has been given in one place: before the command or after it. -/
structure Given where
  output : Option Format := none
  bytes : Bool := false
  maxDepth : Option Nat := none
  verbosity : Nat := 0
  file : Option String := none
  samples : Bool := false
  operands : List String := []

/-- The number that a text writes in decimal, after a plus sign or not, if it has 64 bits. -/
def natural? (text : String) : Option Nat :=
  let digits :=
    match text.toList with
    | '+' :: rest => rest
    | cs => cs
  if digits ≠ [] ∧ digits.all Char.isDigit then
    let n := digits.foldl (fun n c => n * 10 + (c.toNat - '0'.toNat)) 0
    if n < UInt64.size then some n else none
  else none

namespace Given

/-- `given` with an option that has no value. Only `--verbose` may be repeated. -/
def flag (given : Given) : Switch → Except Stop Given
  | .bytes => if given.bytes then .error .misuse else .ok { given with bytes := true }
  | .samples => if given.samples then .error .misuse else .ok { given with samples := true }
  | .verbose => .ok { given with verbosity := given.verbosity + 1 }
  | .version => .error .version
  | .help => .error .help
  | _ => .error .misuse

/-- `given` with an option and its value. -/
def option (given : Given) (value : String) : Switch → Except Stop Given
  | .output =>
    match given.output, Format.ofName? value with
    | none, some f => .ok { given with output := some f }
    | _, _ => .error .misuse
  | .maxDepth =>
    match given.maxDepth, natural? value with
    | none, some n => .ok { given with maxDepth := some n }
    | _, _ => .error .misuse
  | .file =>
    match given.file with
    | none => .ok { given with file := some value }
    | some _ => .error .misuse
  | _ => .error .misuse

/-- `given` with an operand. -/
def operand (given : Given) (text : String) : Given :=
  { given with operands := given.operands ++ [text] }

end Given

/-- An argument as the system gives it. -/
abbrev Argument : Type :=
  List UInt8

/-- The text of an argument; one that spells no text is a mistake. -/
def textOf (argument : Argument) : Except Stop String :=
  match Utf8.decode? argument with
  | some cs => .ok (String.ofList cs)
  | none => .error .misuse

/-- The text before the first equals sign, and the text after it if there is one. -/
def splitEquals (text : List Char) : List Char × Option (List Char) :=
  match text.span (· ≠ '=') with
  | (name, '=' :: value) => (name, some value)
  | (name, _) => (name, none)

/-- The long option that an argument names after its hyphens, and the value joined to it. -/
def readLong (command : Option Subcommand) (body : Argument) :
    Except Stop (Switch × Option String) := do
  let (name, value) := splitEquals (← textOf body).toList
  match Switch.ofLong? command (String.ofList name) with
  | some s => .ok (s, value.map String.ofList)
  | none => .error .misuse

/-- Reads a run of letters; the option that still needs a value is given back. What follows a
letter whose option has a value is that value, without an equals sign in front. `spelled` tells
whether the letters are the whole argument. -/
def readLetters (command : Option Subcommand) (spelled : Bool) (given : Given) :
    List Char → Except Stop (Given × Option Switch)
  | [] => if spelled then .ok (given, none) else .error .misuse
  | c :: rest =>
    match Switch.ofLetter? command c with
    | none => .error .misuse
    | some s =>
      if s.takesValue then
        match rest, spelled with
        | _, false => .error .misuse
        | [], true => .ok (given, some s)
        | '=' :: value, true => (given.option (String.ofList value) s).map (·, none)
        | value, true => (given.option (String.ofList value) s).map (·, none)
      else do readLetters command spelled (← given.flag s) rest

/-- What an argument is where no value is due. -/
inductive ArgumentKind where
  /-- Two hyphens: what follows is operands only. -/
  | separator
  /-- A long option, without its hyphens. -/
  | long (body : Argument)
  /-- A run of letters, without its hyphen. -/
  | letters (body : Argument)
  /-- Anything else, a lone hyphen included. -/
  | operand
  deriving DecidableEq

/-- What an argument is where no value is due. -/
def ArgumentKind.of : Argument → ArgumentKind
  | [0x2D, 0x2D] => separator
  | 0x2D :: 0x2D :: body => long body
  | 0x2D :: b :: body => letters (b :: body)
  | _ => operand

/-- How far the arguments in one place have been read. -/
structure Reading where
  given : Given := {}
  /-- The last option with a value in an argument of its own, and this argument once it is read.
  The value is not among what is given yet. -/
  pending : Option (Switch × Option Argument) := none
  /-- Whether two hyphens have ended the options. -/
  closed : Bool := false

namespace Reading

/-- Whether the next argument is the value of an option. -/
def awaitsValue (r : Reading) : Bool :=
  match r.pending with
  | some (_, none) => true
  | _ => false

/-- What has been given, the last value included; one that is still due is a mistake. -/
def settle (r : Reading) : Except Stop Given :=
  match r.pending with
  | none => .ok r.given
  | some (_, none) => .error .misuse
  | some (s, some value) => do r.given.option (← textOf value) s

/-- Reads an argument that is not the value of an option. -/
def stepFrom (command : Option Subcommand) (given : Given) (closed : Bool) (argument : Argument) :
    Except Stop Reading :=
  match if closed then .operand else ArgumentKind.of argument with
  | .separator => .ok { given, closed := true }
  | .operand =>
    if Subcommand.takesOperand command given.operands.length then do
      return { given := given.operand (← textOf argument), closed }
    else .error .misuse
  | .long body => do
    match ← readLong command body with
    | (s, some value) => do return { given := ← given.option value s }
    | (s, none) =>
      if s.takesValue then return { given, pending := some (s, none) }
      else do return { given := ← given.flag s }
  | .letters body => do
    let (cs, tail) := Utf8.decodePrefix body
    let (given, due) ← readLetters command tail.isEmpty given cs
    return { given, pending := due.map (·, none) }

/-- Reads one more argument. -/
def step (command : Option Subcommand) (r : Reading) (argument : Argument) :
    Except Stop Reading :=
  match r.pending, ArgumentKind.of argument with
  | some (s, none), .operand => .ok { r with pending := some (s, some argument) }
  | _, _ => do stepFrom command (← r.settle) r.closed argument

end Reading

/-- A command with its own arguments. -/
inductive Command where
  /-- Prints the tokens of a filter. -/
  | tokens (filter : String)
  /-- Checks filters: the given ones, those of a file, and the samples. -/
  | check (filters : List String) (file : Option String) (samples : Bool)
  /-- Decodes the escapes of a value. -/
  | unescape (value : String)
  /-- Explains a code. -/
  | explain (id : String)

/-- The command that `given` completes. -/
def Command.of (command : Subcommand) (given : Given) : Except Stop Command :=
  match command, given.operands with
  | .tokens, [filter] => .ok (.tokens filter)
  | .check, filters => .ok (.check filters given.file given.samples)
  | .unescape, [value] => .ok (.unescape value)
  | .explain, [id] => .ok (.explain id)
  | _, _ => .error .misuse

/-- What the program is to do. -/
structure Invocation where
  config : Config
  format : Format
  /-- How often more detail in the log was asked for. -/
  verbosity : Nat
  command : Command

/-- The invocation of `command`: what was given after the command counts before what was given
in front of it. -/
def Invocation.of (command : Subcommand) (before after : Given) : Except Stop Invocation := do
  return {
    config := {
      mode := if before.bytes || after.bytes then .byte else .codePoint
      limit := (after.maxDepth.or before.maxDepth).getD defaultLimit }
    format := (after.output.or before.output).getD .json
    verbosity := if after.verbosity = 0 then before.verbosity else after.verbosity
    command := ← Command.of command after }

/-- What `help` comes to with the arguments after it: it explains the program, or the one command
or `help` that they name. -/
def helpWith : List Argument → Stop
  | [] => .help
  | [topic] =>
    match textOf topic with
    | .ok name => if name = "help" || (Subcommand.ofName? name).isSome then .help else .misuse
    | .error stop => stop
  | _ => .misuse

/-- Reads arguments up to the command, and then those of the command. -/
def readArguments (r : Reading) : List Argument → Except Stop Invocation
  | [] => .error .misuse
  | a :: rest =>
    if ArgumentKind.of a = .operand && !r.awaitsValue && !r.closed then do
      let name ← textOf a
      match Subcommand.ofName? name with
      | some command => do
        let after ← rest.foldlM (Reading.step (some command)) {}
        let after ← after.settle
        Invocation.of command (← r.settle) after
      | none => .error (if name = "help" then helpWith rest else .misuse)
    else do readArguments (← r.step none a) rest

/-- What the arguments of the program ask for. -/
def Invocation.ofArguments (arguments : List Argument) : Except Stop Invocation :=
  readArguments {} arguments

end LdapFilter.CommandLine
