import LdapFilter.Text.Utf8

/-!
# Files of filters

A file of filters has one filter a line. A line ends with a line feed, or with a carriage return
and a line feed; what follows the last line feed is a line as well. Lines that are blank, and
lines that begin with a number sign, hold no filter, and count all the same.
-/

namespace LdapFilter.FilterFile

/-- The line feed. -/
def lineFeed : UInt8 :=
  0x0A

/-- The carriage return. -/
def carriageReturn : UInt8 :=
  0x0D

/-- The pieces between line feeds. -/
def pieces : List UInt8 → List (List UInt8)
  | [] => [[]]
  | b :: rest =>
    if b = lineFeed then [] :: pieces rest
    else
      match pieces rest with
      | [] => [[b]]
      | piece :: more => (b :: piece) :: more

/-- A piece without the carriage return at its end. -/
def dropReturn (piece : List UInt8) : List UInt8 :=
  if piece.getLast? = some carriageReturn then piece.dropLast else piece

/-- The lines of a file. -/
def lines (data : List UInt8) : List (List UInt8) :=
  (pieces data).map dropReturn

/-- Whether an octet is a space, a tab, a line feed, a form feed or a carriage return. -/
def isBlank (b : UInt8) : Bool :=
  b = 0x20 || b = 0x09 || b = 0x0A || b = 0x0C || b = 0x0D

/-- Whether a line holds a filter. -/
def holdsFilter (line : List UInt8) : Bool :=
  !line.all isBlank && line.head? ≠ some 0x23

/-- The filters of a file with the numbers of their lines, of which the first is 1. -/
def filters (data : List UInt8) : List (Nat × List UInt8) :=
  ((lines data).zipIdx 1).filterMap fun l => if holdsFilter l.1 then some (l.2, l.1) else none

end LdapFilter.FilterFile
