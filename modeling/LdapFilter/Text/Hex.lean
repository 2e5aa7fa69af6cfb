/-!
# Numbers in base sixteen
-/

namespace LdapFilter.Text

/-- The digits of a number in base sixteen, in lower case, without leading zeros. -/
def hexDigits (n : Nat) : List Char :=
  Nat.toDigits 16 n

/-- The digits of a number in base sixteen, in upper case, at least `width` of them. -/
def upperHex (width n : Nat) : String :=
  String.ofList (((hexDigits n).map Char.toUpper).leftpad width '0')

/-- The digits of a number in base sixteen, in lower case, at least `width` of them. -/
def lowerHex (width n : Nat) : String :=
  String.ofList ((hexDigits n).leftpad width '0')

end LdapFilter.Text
