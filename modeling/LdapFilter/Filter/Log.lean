import LdapFilter.Filter.Recognizer
import LdapFilter.Token.Recorded

/-!
# Log of a parse

A parse can be told step by step: what is parsed, every token that the lexer gives, the token
that fits no rule if there is one, and the outcome. The tokens are those that the parser has in
fact read, so the log of a rejected filter ends near the fault.
-/

namespace LdapFilter

/-- How much detail a line of the log is. -/
inductive LogLevel where
  | debug
  | trace
  deriving DecidableEq

/-- The name of a level. -/
def LogLevel.name : LogLevel → String
  | debug => "DEBUG"
  | trace => "TRACE"

/-- The part of the program that a line of the log is from. -/
inductive LogOrigin where
  | commandLine
  | parser
  | lookahead
  | lexer
  deriving DecidableEq

/-- The name under which a part of the program logs. -/
def LogOrigin.target : LogOrigin → String
  | commandLine => "ldap_syntax"
  | parser => "ldap_syntax_core::grammar::parser"
  | lookahead => "ldap_syntax_core::grammar::driver"
  | lexer => "ldap_syntax_core::grammar::lexer"

/-- A line of the log. -/
structure LogLine where
  level : LogLevel
  origin : LogOrigin
  message : String

namespace LogLine

/-- A line on its own, with its level and origin in front. -/
def display (l : LogLine) : String :=
  "[" ++ l.level.name ++ " " ++ l.origin.target ++ "] " ++ l.message

/-- Whether a line is shown to one who asked `verbosity` times for more detail. -/
def isShown (verbosity : Nat) (l : LogLine) : Bool :=
  match l.level with
  | .debug => 1 ≤ verbosity
  | .trace => 2 ≤ verbosity

/-- The line of a token that the lexer gives; the end of the input has none. -/
def ofAnswer? : Except LexError Token → Option LogLine
  | .ok t =>
    if t.isEof then none
    else some ⟨.trace, .lexer, t.display ++ " at " ++ toString t.position⟩
  | .error _ => none

/-- The lines of the outcome of a parse. -/
def ofOutcome : Except ParseError Unit → List LogLine
  | .ok _ => [⟨.debug, .parser, "filter matches"⟩]
  | .error e =>
    (match e with
      | .unexpected .. => [⟨.debug, .lookahead, "syntax error: " ++ e.message⟩]
      | _ => []) ++
      [⟨.debug, .parser, "filter rejected: " ++ e.message⟩]

end LogLine

/-- The lines of a read that gave `answers`. -/
def readLog (answers : List (Except LexError Token)) : List LogLine :=
  answers.filterMap LogLine.ofAnswer?

/-- The lines of a parse of `source`, after its first line. -/
def recognizeLog {σ : Type} [TokenSource σ] (limit : Nat) (source : σ) : List LogLine :=
  match recognize limit (Recorded.ofSource source) with
  | .ok _ r => readLog r.answers ++ LogLine.ofOutcome (.ok ())
  | .error e r => readLog r.answers ++ LogLine.ofOutcome (.error e)

/-- The log of `parseBytes`. -/
def parseBytesLog (bytes : List UInt8) (limit : Nat := defaultLimit) : List LogLine :=
  ⟨.debug, .parser, "parsing " ++ toString bytes.length ++ " filter bytes"⟩ ::
    recognizeLog limit (ByteCursor.ofList bytes)

/-- The log of `parse`. -/
def parseLog (text : String) (config : Config := {}) : List LogLine :=
  ⟨.debug, .parser,
    "parsing filter " ++ Text.quote text ++ " (" ++ config.mode.name ++ " source)"⟩ ::
    match config.mode with
    | .codePoint => recognizeLog config.limit (CharCursor.ofList text.toList)
    | .byte => recognizeLog config.limit (ByteCursor.ofList (Utf8.encodeAll text.toList))

/-- The log of reading every token of a source. -/
def tokensLog {σ : Type} [TokenSource σ] (source : σ) : List LogLine :=
  readLog ((TokenSource.readAll source).1.map .ok)

end LdapFilter
