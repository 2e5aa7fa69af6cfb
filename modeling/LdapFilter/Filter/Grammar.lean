/-!
# The grammar of filters

Which texts are filters, as derivations of the grammar of RFC 4515 section 3 over lists of
characters. Two points are settled here that the RFC leaves to its text: an attribute may be a
single number, and between a colon and a colon the two letters `dn`, in any case, are always the
marker, so the rule of an item without an attribute is never called `dn`. `Grammar.Filter levels`
are the filters of at most `levels` filters inside one another; one more level keeps them
(`Filter.mono`).
-/

namespace LdapFilter.Grammar

/-- `keychar = ALPHA / DIGIT / HYPHEN`. -/
def IsKeychar (c : Char) : Prop :=
  c.isAlpha ∨ c.isDigit ∨ c = '-'

/-- `HEX = DIGIT / %x41-46 / %x61-66`. -/
def IsHexDigit (c : Char) : Prop :=
  c.isDigit ∨ ('A' ≤ c ∧ c ≤ 'F') ∨ ('a' ≤ c ∧ c ≤ 'f')

instance (c : Char) : Decidable (IsHexDigit c) :=
  inferInstanceAs (Decidable (_ ∨ _ ∨ _))

/-- `normal`: what stands for itself in a value. -/
def IsNormal (c : Char) : Prop :=
  c ≠ '\x00' ∧ c ≠ '(' ∧ c ≠ ')' ∧ c ≠ '*' ∧ c ≠ '\\'

/-- `keystring = ALPHA *keychar`. -/
inductive Keystring : List Char → Prop where
  | mk {lead : Char} {rest : List Char} (lead_alpha : lead.isAlpha)
      (rest_keychar : ∀ c ∈ rest, IsKeychar c) : Keystring (lead :: rest)

/-- `number = DIGIT / ( LDIGIT 1*DIGIT )`. -/
inductive Number : List Char → Prop where
  | zero : Number ['0']
  | positive {lead : Char} {rest : List Char} (lead_digit : lead.isDigit) (lead_ne : lead ≠ '0')
      (rest_digit : ∀ c ∈ rest, c.isDigit) : Number (lead :: rest)

/-- `numericoid = number *( DOT number )`. -/
inductive Numericoid : List Char → Prop where
  | number {n : List Char} : Number n → Numericoid n
  | dot {n rest : List Char} : Number n → Numericoid rest → Numericoid (n ++ '.' :: rest)

/-- `oid = descr / numericoid`. -/
inductive Oid : List Char → Prop where
  | descr {s : List Char} : Keystring s → Oid s
  | numericoid {s : List Char} : Numericoid s → Oid s

/-- `options = *( SEMI 1*keychar )`. -/
inductive Options : List Char → Prop where
  | nil : Options []
  | cons {option rest : List Char} (option_ne : option ≠ [])
      (option_keychar : ∀ c ∈ option, IsKeychar c) :
      Options rest → Options (';' :: (option ++ rest))

/-- `attr = oid options`. -/
inductive Attr : List Char → Prop where
  | mk {oid options : List Char} : Oid oid → Options options → Attr (oid ++ options)

/-- `assertionvalue = 0*(normal / ( ESC HEX HEX ))`. -/
inductive Value : List Char → Prop where
  | nil : Value []
  | normal {c : Char} {rest : List Char} : IsNormal c → Value rest → Value (c :: rest)
  | escaped {high low : Char} {rest : List Char} : IsHexDigit high → IsHexDigit low →
      Value rest → Value ('\\' :: high :: low :: rest)

/-- `any = *( assertionvalue ASTERISK )`. -/
inductive Pieces : List Char → Prop where
  | nil : Pieces []
  | cons {value rest : List Char} : Value value → Pieces rest → Pieces (value ++ '*' :: rest)

/-- The marker `dn`, in any case. -/
inductive Marker : List Char → Prop where
  | mk {d n : Char} (d_eq : d = 'd' ∨ d = 'D') (n_eq : n = 'n' ∨ n = 'N') : Marker [d, n]

/-- `filtertype = EQUALS / ( TILDE / RANGLE / LANGLE ) EQUALS`. -/
inductive Comparison : List Char → Prop where
  | equal : Comparison ['=']
  | approx : Comparison ['~', '=']
  | greaterOrEqual : Comparison ['>', '=']
  | lessOrEqual : Comparison ['<', '=']

/-- `[ COLON dn ]`. -/
inductive MarkerPart : List Char → Prop where
  | none : MarkerPart []
  | some {marker : List Char} : Marker marker → MarkerPart (':' :: marker)

/-- `[ COLON oid ]`. -/
inductive RulePart : List Char → Prop where
  | none : RulePart []
  | some {oid : List Char} : Oid oid → RulePart (':' :: oid)

/-- `item = simple / present / substring / extensible`. -/
inductive Item : List Char → Prop where
  | simple {attr sign value : List Char} : Attr attr → Comparison sign → Value value →
      Item (attr ++ sign ++ value)
  | present {attr : List Char} : Attr attr → Item (attr ++ ['=', '*'])
  | substring {attr initial any final : List Char} : Attr attr → Value initial → Pieces any →
      Value final → Item (attr ++ '=' :: initial ++ '*' :: any ++ final)
  | extensible {attr marker rule value : List Char} : Attr attr → MarkerPart marker →
      RulePart rule → Value value → Item (attr ++ marker ++ rule ++ ':' :: '=' :: value)
  | markedRule {marker oid value : List Char} : Marker marker → Oid oid → Value value →
      Item (':' :: marker ++ ':' :: oid ++ ':' :: '=' :: value)
  | rule {oid value : List Char} : Oid oid → ¬Marker oid → Value value →
      Item (':' :: oid ++ ':' :: '=' :: value)

mutual

/-- `filter = LPAREN filtercomp RPAREN`, of at most `levels` filters inside one another. -/
inductive Filter : (levels : Nat) → List Char → Prop where
  | mk {levels : Nat} {body : List Char} : Component levels body →
      Filter (levels + 1) ('(' :: body ++ [')'])

/-- `filtercomp = and / or / not / item`. -/
inductive Component : (levels : Nat) → List Char → Prop where
  | and {levels : Nat} {filters : List Char} : Filters levels filters →
      Component levels ('&' :: filters)
  | or {levels : Nat} {filters : List Char} : Filters levels filters →
      Component levels ('|' :: filters)
  | not {levels : Nat} {filter : List Char} : Filter levels filter →
      Component levels ('!' :: filter)
  | item {levels : Nat} {item : List Char} : Item item → Component levels item

/-- `filterlist = 1*filter`. -/
inductive Filters : (levels : Nat) → List Char → Prop where
  | one {levels : Nat} {filter : List Char} : Filter levels filter → Filters levels filter
  | cons {levels : Nat} {filter rest : List Char} : Filter levels filter →
      Filters levels rest → Filters levels (filter ++ rest)

end

mutual

/-- A filter stays one when one more level is allowed. -/
theorem Filter.succ : ∀ {levels : Nat} {s : List Char}, Filter levels s → Filter (levels + 1) s
  | _, _, .mk h => .mk h.succ

theorem Component.succ : ∀ {levels : Nat} {s : List Char}, Component levels s →
    Component (levels + 1) s
  | _, _, .and h => .and h.succ
  | _, _, .or h => .or h.succ
  | _, _, .not h => .not h.succ
  | _, _, .item h => .item h

theorem Filters.succ : ∀ {levels : Nat} {s : List Char}, Filters levels s →
    Filters (levels + 1) s
  | _, _, .one h => .one h.succ
  | _, _, .cons h hs => .cons h.succ hs.succ

end

/-- A filter stays one when more levels are allowed. -/
theorem Filter.mono {m n : Nat} (hmn : m ≤ n) {s : List Char} (h : Filter m s) : Filter n s := by
  induction hmn with
  | refl => exact h
  | step _ ih => exact ih.succ

end LdapFilter.Grammar
