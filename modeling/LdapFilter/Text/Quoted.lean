import LdapFilter.Text.Hex
import LdapFilter.Text.Printable

/-!
# Quoted text in messages

A message puts a character between apostrophes and a text between quotation marks. The
delimiter and the backslash get a backslash in front, NUL, tab, line feed and carriage return
have letters of their own, and any other character that a message does not show is given by its
number.
-/

namespace LdapFilter.Text

/-- A character as it stands between two delimiters. -/
def escapeBetween (delimiter c : Char) : String :=
  if c = '\x00' then "\\0"
  else if c = '\t' then "\\t"
  else if c = '\n' then "\\n"
  else if c = '\r' then "\\r"
  else if c = '\\' ∨ c = delimiter then String.ofList ['\\', c]
  else if isPrintable c then c.toString
  else "\\u\x7b" ++ lowerHex 1 c.toNat ++ "\x7d"

/-- A character between apostrophes. -/
def quoteChar (c : Char) : String :=
  "'" ++ escapeBetween '\'' c ++ "'"

/-- A text between quotation marks. -/
def quote (text : String) : String :=
  "\"" ++ String.join (text.toList.map (escapeBetween '"')) ++ "\""

end LdapFilter.Text
