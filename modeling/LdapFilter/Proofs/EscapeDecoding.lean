import LdapFilter.Proofs.EscapeScan

/-!
# What an escaped value stands for

A value is made of pieces (`Escape.Piece`): a character other than the backslash, which stands for
its own octets, and a backslash with two digits, which stands for the octet that they write. The
scan that decodes takes one piece after another off the octets of a value
(`Piece.decodeFrom_append`), so it gives what the pieces stand for; a value that is not made of
pieces has a bad escape (`validate_eq_nil_iff`) and is refused. Octets can be written in many ways
(`Escape.Spelling`), and each of them is a sequence of pieces.
-/

namespace LdapFilter.Escape

open Grammar (IsHexDigit)
open Utf8 (encode encodeAll)

/-! ## The numbers that digits write -/

/-- The number that a hexadecimal digit writes, in either case. -/
def digitNumber (ch : Char) : Nat :=
  "0123456789abcdef".toList.idxOf ch.toLower

/-- The hexadecimal digit that writes a number, in upper or in lower case. -/
def digit (upper : Bool) (n : Nat) : Char :=
  if upper then n.digitChar.toUpper else n.digitChar

theorem isHexDigit_digit (upper : Bool) {n : Nat} (h : n < 16) : IsHexDigit (digit upper n) := by
  revert upper n
  decide

theorem digitNumber_digit (upper : Bool) {n : Nat} (h : n < 16) :
    digitNumber (digit upper n) = n := by
  revert upper n
  decide

theorem digitValue?_of_hex {ch : Char} (h : IsHexDigit ch) :
    digitValue? (UInt8.ofNat ch.toNat) = some (UInt8.ofNat (digitNumber ch)) := by
  have table : ∀ n < 128, IsHexDigit (Char.ofNat n) →
      digitValue? (UInt8.ofNat n) = some (UInt8.ofNat (digitNumber (Char.ofNat n))) := by
    decide
  have small : ch.toNat < 128 := by
    rw [isHexDigit_iff_toNat] at h
    omega
  have here := table ch.toNat small
  rw [Char.ofNat_toNat] at here
  exact here h

/-- The octet that two digits write. -/
def octetOf (high low : Char) : UInt8 :=
  UInt8.ofNat (16 * digitNumber high + digitNumber low)

theorem octet?_of_hex {high low : Char} (hh : IsHexDigit high) (hl : IsHexDigit low) :
    octet? (UInt8.ofNat high.toNat) (UInt8.ofNat low.toNat) = some (octetOf high low) := by
  have sum : octetOf high low =
      UInt8.ofNat (digitNumber high) * 16 + UInt8.ofNat (digitNumber low) := by
    rw [octetOf, UInt8.ofNat_add, UInt8.ofNat_mul, UInt8.mul_comm]
    rfl
  rw [octet?, digitValue?_of_hex hh, digitValue?_of_hex hl, sum]
  rfl

theorem octetOf_digit (upperHigh upperLow : Bool) (b : UInt8) :
    octetOf (digit upperHigh (b.toNat / 16)) (digit upperLow (b.toNat % 16)) = b := by
  have := b.toNat_lt
  rw [octetOf, digitNumber_digit upperHigh (by omega), digitNumber_digit upperLow (by omega),
    Nat.div_add_mod, UInt8.ofNat_toNat]

/-! ## Pieces -/

/-- A piece of a value. -/
inductive Piece where
  /-- A character that stands for itself. -/
  | plain (ch : Char) (other : ch ≠ '\\')
  /-- A backslash and two digits. -/
  | escape (high low : Char) (high_hex : IsHexDigit high) (low_hex : IsHexDigit low)

/-- The characters of a piece. -/
def Piece.text : Piece → List Char
  | plain ch _ => [ch]
  | escape high low _ _ => ['\\', high, low]

/-- The octets that a piece stands for. -/
def Piece.octets : Piece → List UInt8
  | plain ch _ => encode ch
  | escape high low _ _ => [octetOf high low]

/-- The text consists of pieces, and these stand for the octets. -/
def StandsFor (text : List Char) (octets : List UInt8) : Prop :=
  ∃ pieces : List Piece, text = pieces.flatMap Piece.text ∧ octets = pieces.flatMap Piece.octets

theorem StandsFor.nil : StandsFor [] [] :=
  ⟨[], rfl, rfl⟩

theorem StandsFor.piece (p : Piece) : StandsFor p.text p.octets :=
  ⟨[p], by simp, by simp⟩

theorem StandsFor.append {s t : List Char} {b d : List UInt8} (h : StandsFor s b)
    (h' : StandsFor t d) : StandsFor (s ++ t) (b ++ d) := by
  obtain ⟨pieces, rfl, rfl⟩ := h
  obtain ⟨pieces', rfl, rfl⟩ := h'
  exact ⟨pieces ++ pieces', List.flatMap_append.symm, List.flatMap_append.symm⟩

/-- A text whose escapes are good consists of pieces. -/
theorem Sound.exists_standsFor {s : List Char} (h : Sound s) : ∃ octets, StandsFor s octets := by
  induction h with
  | nil => exact ⟨[], .nil⟩
  | other hch _ ih =>
    obtain ⟨octets, ih⟩ := ih
    exact ⟨_, (StandsFor.piece (.plain _ hch)).append ih⟩
  | escape hh hl _ ih =>
    obtain ⟨octets, ih⟩ := ih
    exact ⟨_, (StandsFor.piece (.escape _ _ hh hl)).append ih⟩

/-- A value has no errors exactly if its escapes are good. -/
theorem validate_eq_nil_iff {v : String} : validate v = [] ↔ Sound v.toList := by
  refine ⟨fun h => ?_, validate_of_sound⟩
  have view := scan v.toList
  generalize hv : v.toList = s at view
  cases view with
  | whole sound => exact sound
  | broken before digits rest sound bad =>
    obtain ⟨e, errors, he, -⟩ := validate_of_broken hv sound bad
    cases h.symm.trans he

/-! ## The scan that decodes -/

section Decode

variable {value : List Char} {offset : Nat}

theorem decodeFrom_other {b : UInt8} (hb : b ≠ backslash) (t : List UInt8) :
    decodeFrom value offset (b :: t) =
      (decodeFrom value (offset + 1) t).map (b :: ·) id := by
  rw [decodeFrom.eq_def]
  simp only [if_pos hb]
  rfl

theorem decodeFrom_good {high low octet : UInt8} (h : octet? high low = some octet)
    (t : List UInt8) : decodeFrom value offset (backslash :: high :: low :: t) =
      (decodeFrom value (offset + 3) t).map (octet :: ·) id := by
  rw [decodeFrom, if_neg (by simp)]
  simp only [h]
  rfl

/-- Octets that are no backslash stand for themselves. -/
theorem decodeFrom_append {s : List UInt8} (hs : ∀ b ∈ s, b ≠ backslash) (t : List UInt8) :
    decodeFrom value offset (s ++ t) =
      (decodeFrom value (offset + s.length) t).map (s ++ ·) id := by
  induction s generalizing offset with
  | nil => rfl
  | cons b s ih =>
    obtain ⟨hb, hs⟩ := List.forall_mem_cons.1 hs
    rw [List.cons_append, decodeFrom_other hb, ih hs, Prod.map_map, List.length_cons,
      Nat.add_right_comm offset 1, Nat.add_assoc]
    rfl

/-- A piece is taken off as a whole, and gives the octets that it stands for. -/
theorem Piece.decodeFrom_append (p : Piece) (t : List UInt8) :
    decodeFrom value offset (encodeAll p.text ++ t) =
      (decodeFrom value (offset + (encodeAll p.text).length) t).map (p.octets ++ ·) id := by
  cases p with
  | plain ch other =>
    have whole : encodeAll (plain ch other).text = encode ch := List.append_nil _
    rw [whole, Escape.decodeFrom_append fun b hb => ne_backslash_of_mem hb other]
    rfl
  | escape high low hh hl =>
    have octets : encodeAll (escape high low hh hl).text =
        [backslash, UInt8.ofNat high.toNat, UInt8.ofNat low.toNat] := by
      simp only [text, Utf8.encodeAll_cons, Utf8.encodeAll_nil, encode_of_hex hh, encode_of_hex hl]
      rfl
    rw [octets]
    exact decodeFrom_good (octet?_of_hex hh hl) t

/-- Text that consists of pieces gives what they stand for, and no error. -/
theorem StandsFor.decodeFrom {s : List Char} {octets : List UInt8} (h : StandsFor s octets) :
    decodeFrom value offset (encodeAll s) = (octets, []) := by
  obtain ⟨pieces, rfl, rfl⟩ := h
  induction pieces generalizing offset with
  | nil => rfl
  | cons p pieces ih =>
    rw [List.flatMap_cons, Utf8.encodeAll_append, p.decodeFrom_append, ih]
    rfl

end Decode

/-- A value is decoded to the octets that it stands for. -/
theorem decode_eq_ok_iff {v : String} {octets : List UInt8} :
    decode v = .ok octets ↔ StandsFor v.toList octets := by
  have decoded {octets} (h : StandsFor v.toList octets) : decode v = .ok octets := by
    simp only [decode, h.decodeFrom]
  refine ⟨fun h => ?_, decoded⟩
  have sound : Sound v.toList := validate_eq_nil_iff.1 (exists_decode_iff.1 ⟨octets, h⟩)
  obtain ⟨octets', stands⟩ := sound.exists_standsFor
  cases h.symm.trans (decoded stands)
  exact stands

/-- A value that is not decoded is refused for the errors that are found in it. -/
theorem decode_eq_error_iff {v : String} {errors : List EscapeError} :
    decode v = .error errors ↔ errors = validate v ∧ validate v ≠ [] := by
  unfold decode validate
  rw [← snd_decodeFrom]
  obtain ⟨octets, found⟩ := decodeFrom v.toList 0 (encodeAll v.toList)
  cases found with
  | nil => simp
  | cons e found => simp [eq_comm]

/-- **The two scans.** Decoding succeeds exactly where validation finds no error, and where it does
not it reports the errors that validation finds. -/
theorem decode_agrees_with_validate (v : String) :
    ((∃ octets, decode v = .ok octets) ↔ validate v = []) ∧
      ∀ errors, decode v = .error errors ↔ errors = validate v ∧ validate v ≠ [] :=
  ⟨exists_decode_iff, fun _ => decode_eq_error_iff⟩

/-- A bad escape right before a good one, and one that breaks off. -/
example : decode "\\\\41\\4" = .error [.invalid 0 "\\\\4", .incomplete 4] := by decide +kernel

/-! ## Ways to write octets -/

/-- A way to write some octets. -/
inductive Spelling where
  /-- One octet as an escape, each of its digits in upper or in lower case. -/
  | escaped (octet : UInt8) (upperHigh upperLow : Bool)
  /-- The octets of characters other than the backslash, as these characters. -/
  | literal (text : List Char) (other : '\\' ∉ text)

/-- The characters that are written. -/
def Spelling.text : Spelling → List Char
  | escaped octet upperHigh upperLow =>
    ['\\', digit upperHigh (octet.toNat / 16), digit upperLow (octet.toNat % 16)]
  | literal text _ => text

/-- The octets that are written. -/
def Spelling.octets : Spelling → List UInt8
  | escaped octet _ _ => [octet]
  | literal text _ => encodeAll text

theorem standsFor_literal {text : List Char} (h : '\\' ∉ text) :
    StandsFor text (encodeAll text) := by
  induction text with
  | nil => exact .nil
  | cons ch text ih =>
    obtain ⟨hch, htext⟩ := not_or.1 (mt List.mem_cons.2 h)
    exact (StandsFor.piece (.plain ch (Ne.symm hch))).append (ih htext)

theorem Spelling.standsFor (s : Spelling) : StandsFor s.text s.octets := by
  cases s with
  | literal text other => exact standsFor_literal other
  | escaped octet upperHigh upperLow =>
    have := octet.toNat_lt
    have stands := StandsFor.piece (.escape _ _
      (isHexDigit_digit upperHigh (show octet.toNat / 16 < 16 by omega))
      (isHexDigit_digit upperLow (show octet.toNat % 16 < 16 by omega)))
    rwa [Piece.octets, octetOf_digit] at stands

theorem standsFor_spellings (spelled : List Spelling) :
    StandsFor (spelled.flatMap Spelling.text) (spelled.flatMap Spelling.octets) := by
  induction spelled with
  | nil => exact .nil
  | cons s spelled ih => exact s.standsFor.append ih

/-- **Decoding undoes escaping.** A value is decoded exactly if it consists of pieces, and then to
the octets that the pieces stand for. So octets come back from every way to write them, and values
that are decoded can be joined. -/
theorem decode_undoes_escaping :
    (∀ v octets, decode v = .ok octets ↔ StandsFor v.toList octets) ∧
    (∀ spelled : List Spelling, decode (String.ofList (spelled.flatMap Spelling.text)) =
      .ok (spelled.flatMap Spelling.octets)) ∧
    ∀ v w octets octets', decode v = .ok octets → decode w = .ok octets' →
      decode (v ++ w) = .ok (octets ++ octets') := by
  refine ⟨fun v octets => decode_eq_ok_iff, fun spelled => ?_, fun v w octets octets' hv hw => ?_⟩
  · rw [decode_eq_ok_iff, String.toList_ofList]
    exact standsFor_spellings spelled
  · rw [decode_eq_ok_iff, String.toList_append]
    exact (decode_eq_ok_iff.1 hv).append (decode_eq_ok_iff.1 hw)

/-- Escapes in either case, and a letter of two octets before one of them. -/
theorem decode_undoes_escaping_mixed :
    decode "Lu\\c4\\8D" = .ok [0x4C, 0x75, 0xC4, 0x8D] ∧
      decode "iü\\5C" = .ok [0x69, 0xC3, 0xBC, 0x5C] ∧
      decode ("Lu\\c4\\8D" ++ "iü\\5C") =
        .ok [0x4C, 0x75, 0xC4, 0x8D, 0x69, 0xC3, 0xBC, 0x5C] := by
  have first : decode "Lu\\c4\\8D" = .ok [0x4C, 0x75, 0xC4, 0x8D] := by decide +kernel
  have second : decode "iü\\5C" = .ok [0x69, 0xC3, 0xBC, 0x5C] := by decide +kernel
  exact ⟨first, second, decode_undoes_escaping.2.2 _ _ _ _ first second⟩

end LdapFilter.Escape
