import LdapFilter.Rule.Filter
import LdapFilter.Token.Lexer

/-!
# Recognizing filters

Whether a text or a sequence of octets is one complete filter, and if not, why not. A text may be
read by characters or by the octets that spell it; the two ways differ in the unit that
positions count.
-/

namespace LdapFilter

/-- `filter = LPAREN filtercomp RPAREN`, within what the limit leaves. -/
def Parser.filter {σ : Type} [TokenSource σ] : EStateM ParseError (Parser σ) Unit := fun p =>
  (FilterRule.within (p.limit - p.depth)).val.run p

/-- Recognizes a source that is one complete filter of at most `limit` filters inside one
another, and leaves the source as it was read. -/
def recognize {σ : Type} [TokenSource σ] (limit : Nat) : EStateM ParseError σ Unit := fun s =>
  match TokenSource.next s with
  | .error e s => .error (.lexical e) s
  | .ok t s =>
    match Parser.filter ⟨⟨s, t⟩, 0, limit⟩ with
    | .error e p => .error e p.cursor.source
    | .ok _ p =>
      match p.finish with
      | .ok _ => .ok () p.cursor.source
      | .error e => .error e p.cursor.source

/-- How a text is read. -/
structure Config where
  mode : Mode := .codePoint
  /-- How many filters may nest. -/
  limit : Nat := defaultLimit

/-- Whether a run that may change its state succeeded. -/
def outcome {ε σ : Type} : EStateM.Result ε σ Unit → Except ε Unit
  | .ok _ _ => .ok ()
  | .error e _ => .error e

/-- Whether a sequence of octets is one complete filter. -/
def parseBytes (bytes : List UInt8) (limit : Nat := defaultLimit) : Except ParseError Unit :=
  outcome (recognize limit (ByteCursor.ofList bytes))

/-- Whether a text is one complete filter. -/
def parse (text : String) (config : Config := {}) : Except ParseError Unit :=
  match config.mode with
  | .codePoint => outcome (recognize config.limit (CharCursor.ofList text.toList))
  | .byte => parseBytes (Utf8.encodeAll text.toList) config.limit

/-- Whether a text is one complete filter, by its characters and with the default limit. -/
def isMatch (text : String) : Bool :=
  (parse text).isOk

end LdapFilter
