import LdapFilter.Terminal

/-!
# Octets and characters

RFC 3629 writes a character as one to four octets. This module holds both sides of that
writing. `Utf8.classOf?`, `Utf8.sequenceLength?` and `Utf8.acceptsContinuation` sort octets by
the tables of the RFC, which narrow the second octet after `E0`, `ED`, `F0` and `F4` so that
overlong forms, surrogates and numbers above `10FFFF` have no spelling.
`Utf8.encode` spells a character, `Utf8.decode?` reads a sequence of octets as the characters
whose spellings it is made of, and `Utf8.decodeLossy` puts a replacement character for what is
no spelling.
-/

namespace LdapFilter.Utf8

/-- The class of an octet, `utf0` to `utf4`; none for one that no character contains. -/
def classOf? (b : UInt8) : Option Terminal :=
  if b ≤ 0x7F then some .utf1
  else if b ≤ 0xBF then some .utf0
  else if b ≤ 0xC1 then none
  else if b ≤ 0xDF then some .utf2
  else if b ≤ 0xEF then some .utf3
  else if b ≤ 0xF4 then some .utf4
  else none

/-- `UTF0 = %x80-BF`. -/
def isUtf0 (b : UInt8) : Bool :=
  0x80 ≤ b && b ≤ 0xBF

/-- How many octets a sequence has that begins with `lead`; none if no sequence of two or more
begins with it. -/
def sequenceLength? (lead : UInt8) : Option Nat :=
  match classOf? lead with
  | some .utf2 => some 2
  | some .utf3 => some 3
  | some .utf4 => some 4
  | _ => none

/-- The lowest and the highest octet that may follow `lead`. -/
def secondRange (lead : UInt8) : UInt8 × UInt8 :=
  match lead with
  | 0xE0 => (0xA0, 0xBF)
  | 0xED => (0x80, 0x9F)
  | 0xF0 => (0x90, 0xBF)
  | 0xF4 => (0x80, 0x8F)
  | _ => (0x80, 0xBF)

/-- Whether `b` may stand `index` octets after `lead`. -/
def acceptsContinuation (lead : UInt8) (index : Nat) (b : UInt8) : Bool :=
  if index = 1 then (secondRange lead).1 ≤ b && b ≤ (secondRange lead).2 else isUtf0 b

/-- How many of the next `needed` octets continue `lead`, the first of them `index` octets
after it. -/
def continuations (lead : UInt8) (index : Nat) : (needed : Nat) → List UInt8 → Nat
  | 0, _ | _, [] => 0
  | needed + 1, b :: rest =>
    if acceptsContinuation lead index b then 1 + continuations lead (index + 1) needed rest else 0

/-- The octets of a character. -/
def encode (c : Char) : List UInt8 :=
  String.utf8EncodeChar c

/-- The octets of a sequence of characters. -/
def encodeAll (cs : List Char) : List UInt8 :=
  cs.flatMap encode

/-- The number that the payload bits of one to four octets write. -/
def payload : List UInt8 → Nat
  | [a] => a.toNat
  | [a, b] => a.toNat % 32 * 64 + b.toNat % 64
  | [a, b, c] => (a.toNat % 16 * 64 + b.toNat % 64) * 64 + c.toNat % 64
  | [a, b, c, d] =>
    ((a.toNat % 8 * 64 + b.toNat % 64) * 64 + c.toNat % 64) * 64 + d.toNat % 64
  | _ => 0

/-- The character that a sequence of octets spells. -/
def scalar? (bytes : List UInt8) : Option Char :=
  (some (Char.ofNat (payload bytes))).filter fun c => encode c = bytes

theorem encode_of_scalar? {bytes : List UInt8} {c : Char} (h : scalar? bytes = some c) :
    encode c = bytes := by
  simpa using (Option.filter_eq_some_iff.1 h).2

/-- The character that the first octets spell, and what follows them. -/
def uncons? (bytes : List UInt8) : Option (Char × List UInt8) :=
  [1, 2, 3, 4].findSome? fun n =>
    (scalar? (bytes.take n)).map fun c => (c, bytes.drop n)

theorem eq_of_uncons? {bytes rest : List UInt8} {c : Char} (h : uncons? bytes = some (c, rest)) :
    bytes = encode c ++ rest := by
  obtain ⟨n, _, hn⟩ := List.exists_of_findSome?_eq_some h
  obtain ⟨d, hd, he⟩ := Option.map_eq_some_iff.1 hn
  obtain ⟨rfl, rfl⟩ := Prod.mk.inj he
  rw [encode_of_scalar? hd, List.take_append_drop]

theorem length_lt_of_uncons? {bytes rest : List UInt8} {c : Char}
    (h : uncons? bytes = some (c, rest)) : rest.length < bytes.length := by
  rw [eq_of_uncons? h]
  simp [encode, Char.utf8Size_pos]

/-- The longest sequence of characters whose spellings the octets begin with, and the octets
after it. -/
def decodePrefix (bytes : List UInt8) : List Char × List UInt8 :=
  match h : uncons? bytes with
  | some (c, rest) =>
    have := length_lt_of_uncons? h
    (c :: (decodePrefix rest).1, (decodePrefix rest).2)
  | none => ([], bytes)
termination_by bytes.length
decreasing_by exact this

/-- The characters that a sequence of octets spells. -/
def decode? (bytes : List UInt8) : Option (List Char) :=
  match decodePrefix bytes with
  | (cs, []) => some cs
  | _ => none

/-- How many octets after `lead` belong to the character that it begins and that is not
finished. -/
def brokenLength (lead : UInt8) (rest : List UInt8) : Nat :=
  match sequenceLength? lead with
  | some length => continuations lead 1 (length - 1) rest
  | none => 0

/-- The character that stands for octets which spell none. -/
def replacement : Char :=
  '\uFFFD'

/-- The characters that octets spell, with one replacement character for each unfinished
character and for each octet that begins none. -/
def decodeLossy (bytes : List UInt8) : List Char :=
  match bytes with
  | [] => []
  | lead :: tail =>
    match h : uncons? (lead :: tail) with
    | some (c, rest) =>
      have := length_lt_of_uncons? h
      c :: decodeLossy rest
    | none => replacement :: decodeLossy (tail.drop (brokenLength lead tail))
termination_by bytes.length
decreasing_by
  · exact this
  · rw [List.length_drop, List.length_cons]
    omega

end LdapFilter.Utf8
