/-!
# The terminals of a search filter

A filter is read as a sequence of terminals: the character classes of RFC 4512 section 1.4
and the single characters that RFC 4515 section 3 gives a meaning. Every character but NUL
belongs to exactly one of them (`Terminal.ofChar?`). The kinds `utf0` to `utf4` are the octet
classes of RFC 3629; they sort octets and are never the kind of a token.
-/

namespace LdapFilter

/-- What a token of a filter can be. -/
inductive Terminal where
  | alpha
  | digit
  | hyphen
  | esc
  | space
  | comma
  | equals
  | tilde
  | langle
  | rangle
  | colon
  | semi
  | lparen
  | rparen
  | ampersand
  | vertbar
  | exclamation
  | asterisk
  | dot
  | lsquare
  | rsquare
  | utf1subset
  | utfmb
  | utf0
  | utf1
  | utf2
  | utf3
  | utf4
  | eof
  deriving DecidableEq

namespace Terminal

/-- The name that the RFC grammars write for a terminal. -/
def name : Terminal → String
  | alpha => "ALPHA"
  | digit => "DIGIT"
  | hyphen => "HYPHEN"
  | esc => "ESC"
  | space => "SPACE"
  | comma => "COMMA"
  | equals => "EQUALS"
  | tilde => "TILDE"
  | langle => "LANGLE"
  | rangle => "RANGLE"
  | colon => "COLON"
  | semi => "SEMI"
  | lparen => "LPAREN"
  | rparen => "RPAREN"
  | ampersand => "AMPERSAND"
  | vertbar => "VERTBAR"
  | exclamation => "EXCLAMATION"
  | asterisk => "ASTERISK"
  | dot => "DOT"
  | lsquare => "LSQUARE"
  | rsquare => "RSQUARE"
  | utf1subset => "UTF1SUBSET"
  | utfmb => "UTFMB"
  | utf0 => "UTF0"
  | utf1 => "UTF1"
  | utf2 => "UTF2"
  | utf3 => "UTF3"
  | utf4 => "UTF4"
  | eof => "EOF"

/-- Every terminal, in the order of the catalogue. -/
def all : List Terminal :=
  [alpha, digit, hyphen, esc, space, comma, equals, tilde, langle, rangle, colon, semi, lparen,
    rparen, ampersand, vertbar, exclamation, asterisk, dot, lsquare, rsquare, utf1subset, utfmb,
    utf0, utf1, utf2, utf3, utf4, eof]

/-- The terminal of a catalogue name. -/
def ofName? (name : String) : Option Terminal :=
  all.find? fun t => t.name = name

/-- `keychar = ALPHA / DIGIT / HYPHEN`. -/
def isKeychar : Terminal → Bool
  | alpha | digit | hyphen => true
  | _ => false

/-- What may stand unescaped in an assertion value: every single character but NUL, the
parentheses, the asterisk and the backslash, and every longer character. -/
def isNormal : Terminal → Bool
  | esc | lparen | rparen | asterisk | utf0 | utf1 | utf2 | utf3 | utf4 | eof => false
  | _ => true

/-- The terminal that a character is; NUL is none. -/
def ofChar? (c : Char) : Option Terminal :=
  if c.isAlpha then some alpha
  else if c.isDigit then some digit
  else
    match c with
    | '\x00' => none
    | '(' => some lparen
    | ')' => some rparen
    | '&' => some ampersand
    | '|' => some vertbar
    | '!' => some exclamation
    | '*' => some asterisk
    | '\\' => some esc
    | ' ' => some space
    | ',' => some comma
    | '.' => some dot
    | '-' => some hyphen
    | '=' => some equals
    | '~' => some tilde
    | '<' => some langle
    | '>' => some rangle
    | ':' => some colon
    | ';' => some semi
    | '[' => some lsquare
    | ']' => some rsquare
    | _ => some (if c.toNat < 0x80 then utf1subset else utfmb)

/-- The terminal that a single octet is: none for NUL, and none for an octet that is only a
part of a character. -/
def ofAscii? (b : UInt8) : Option Terminal :=
  if b < 0x80 then ofChar? (Char.ofNat b.toNat) else none

/-- `UTF1SUBSET = %x01-27 / %x2B-5B / %x5D-7F`, on code points. -/
def isUtf1Subset (code : Nat) : Bool :=
  (0x01 ≤ code && code ≤ 0x27) || (0x2B ≤ code && code ≤ 0x5B) || (0x5D ≤ code && code ≤ 0x7F)

end Terminal

end LdapFilter
