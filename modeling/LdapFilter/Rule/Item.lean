import LdapFilter.Rule.Token

/-!
# Rules of an item

An item compares an attribute with a value. Its rules are those of RFC 4515 section 3, arranged
so that one token decides each step: equality, presence and substrings share the values between
asterisks, and the marker `dn` is told from a rule name that begins with the same letters by the
colon after it.
-/

namespace LdapFilter.TokenRule

variable {σ : Type} [TokenSource σ]

/-- `HEX = DIGIT / %x41-46 / %x61-66`. -/
def hex : TokenRule σ Unit := do
  if (← peek).isHexDigit then skip else refuse .hexDigit

/-- `assertionvalue = 0*(normal / escaped)`, `escaped = ESC HEX HEX`. -/
def value : TokenRule σ Unit :=
  many (fun kind => kind = .esc || kind.isNormal) fun t => do
    if t.kind = .esc then
      hex
      hex

/-- `*DIGIT`. -/
def digits : TokenRule σ Unit :=
  many (fun kind => kind = .digit) fun _ => pure ()

/-- `number = DIGIT / ( LDIGIT 1*DIGIT )`; a zero stands alone. -/
def number : TokenRule σ Unit := do
  if (← peek).kind = .digit then
    if (← take).text = "0" then pure () else digits
  else refuse .number

/-- `numericoid = number *( DOT number )`. -/
def numericoid : TokenRule σ Unit := do
  number
  many (fun kind => kind = .dot) fun _ => number

/-- `*keychar`. -/
def keychars : TokenRule σ Unit :=
  many Terminal.isKeychar fun _ => pure ()

/-- `keychar = ALPHA / DIGIT / HYPHEN`. -/
def keychar : TokenRule σ Unit := do
  if (← peek).kind.isKeychar then skip else refuse .keychar

/-- `descr = ALPHA *keychar`. -/
def descr : TokenRule σ Unit := do
  terminal .alpha
  keychars

/-- `oid = descr / numericoid`. -/
def oid : TokenRule σ Unit := do
  match (← peek).kind with
  | .alpha => descr
  | .digit => numericoid
  | _ => refuse .oid

/-- `option = 1*keychar`. -/
def option : TokenRule σ Unit := do
  keychar
  keychars

/-- `attr = oid *( SEMI option )`. -/
def attr : TokenRule σ Unit := do
  oid
  many (fun kind => kind = .semi) fun _ => option

/-- `matchingrule COLON`; a rule that is not `required` may be missing. -/
def matchingRule (required : Bool) : TokenRule σ Unit := do
  let kind := (← peek).kind
  if required || kind = .alpha || kind = .digit then
    oid
    terminal .colon

/-- The part of a matching rule after its first letters, and its colon. -/
def matchingRuleTail : TokenRule σ Unit := do
  keychars
  terminal .colon

/-- `[ "dn" COLON ] [ matchingrule COLON ]`; `d` and `n` before a colon are the marker, and any
other name that begins with `d` is a rule. -/
def dnAndRule (required : Bool) : TokenRule σ Unit := do
  if (← peek).isLetter 'd' then
    skip
    if (← peek).isLetter 'n' then
      skip
      if (← peek).kind = .colon then
        skip
        matchingRule required
      else matchingRuleTail
    else matchingRuleTail
  else matchingRule required

/-- `COLON [ "dn" COLON ] [ matchingrule COLON ] EQUALS assertionvalue`. -/
def extensible (ruleRequired : Bool) : TokenRule σ Unit := do
  terminal .colon
  dnAndRule ruleRequired
  terminal .equals
  value

/-- `EQUALS assertionvalue *( ASTERISK assertionvalue )`: equality, presence or substrings. -/
def equality : TokenRule σ Unit := do
  skip
  value
  many (fun kind => kind = .asterisk) fun _ => value

/-- A comparison sign of two characters and its value. -/
def ordering : TokenRule σ Unit := do
  skip
  terminal .equals
  value

/-- What follows the attribute of an item. -/
def itemTail : TokenRule σ Unit := do
  match (← peek).kind with
  | .colon => extensible false
  | .tilde => ordering
  | .rangle => ordering
  | .langle => ordering
  | .equals => equality
  | _ => refuse .filterType

/-- `item = simple / present / substring / extensible`. -/
def item : TokenRule σ Unit := do
  let kind := (← peek).kind
  if kind = .alpha || kind = .digit then
    attr
    itemTail
  else extensible true

end LdapFilter.TokenRule
