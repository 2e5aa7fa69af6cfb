import LdapFilter.Filter.Grammar
import LdapFilter.Proofs.Encoding
import LdapFilter.Text.Escape

/-!
# The first bad escape of a value

A value is a text whose escapes are good, or it is such a text and then a backslash with fewer than
two digits after it (`Escape.Scan`). The scan of its octets passes the first part without an error,
as only a backslash is spelled by the octet of one, and it reports the backslash: its first error
lies right after the octets of that part (`Escape.validate_of_broken`).
-/

namespace LdapFilter.Escape

open Grammar (IsHexDigit)
open Utf8 (encode encodeAll)

/-! ## Octets of digits -/

/-- An octet that is a hexadecimal digit. -/
def IsHexOctet (b : UInt8) : Prop :=
  (0x30 ≤ b ∧ b ≤ 0x39) ∨ (0x41 ≤ b ∧ b ≤ 0x46) ∨ (0x61 ≤ b ∧ b ≤ 0x66)

instance (b : UInt8) : Decidable (IsHexOctet b) :=
  inferInstanceAs (Decidable (_ ∨ _ ∨ _))

theorem isHexOctet_iff_toNat {b : UInt8} :
    IsHexOctet b ↔ (48 ≤ b.toNat ∧ b.toNat ≤ 57) ∨ (65 ≤ b.toNat ∧ b.toNat ≤ 70) ∨
      (97 ≤ b.toNat ∧ b.toNat ≤ 102) := by
  unfold IsHexOctet
  simp only [UInt8.le_iff_toNat_le, UInt8.reduceToNat]

theorem isHexDigit_iff_toNat {ch : Char} :
    IsHexDigit ch ↔ (48 ≤ ch.toNat ∧ ch.toNat ≤ 57) ∨ (65 ≤ ch.toNat ∧ ch.toNat ≤ 70) ∨
      (97 ≤ ch.toNat ∧ ch.toNat ≤ 102) := by
  unfold IsHexDigit
  rw [Char.isDigit_iff_toNat]
  rfl

theorem digitValue?_eq_none_iff {b : UInt8} : digitValue? b = none ↔ ¬IsHexOctet b := by
  unfold digitValue? IsHexOctet
  split
  · simp [*]
  · split
    · simp [*]
    · split <;> simp [*]

theorem octet?_eq_none_iff {high low : UInt8} :
    octet? high low = none ↔ ¬(IsHexOctet high ∧ IsHexOctet low) := by
  have hh := digitValue?_eq_none_iff (b := high)
  have hl := digitValue?_eq_none_iff (b := low)
  unfold octet?
  cases h : digitValue? high <;> cases l : digitValue? low <;> simp_all

/-- A small octet spells a character alone. -/
theorem encode_of_mem {ch : Char} {b : UInt8} (hb : b ∈ encode ch) (hlt : b.toNat < 0x80) :
    encode ch = [b] ∧ b.toNat = ch.toNat := by
  have valid := Utf8.toNat_valid ch
  obtain ⟨h, he⟩ | ⟨h, h', he⟩ | ⟨h, h', he⟩ | ⟨h, he⟩ := Utf8.encode_forms ch
  · rw [he, List.mem_singleton] at hb
    subst hb
    exact ⟨he, Utf8.toNat_ofNat (by omega)⟩
  all_goals
    rw [he] at hb
    simp only [List.mem_cons, List.not_mem_nil, or_false] at hb
  · rcases hb with rfl | rfl <;> rw [Utf8.toNat_ofNat (by omega)] at hlt <;> omega
  · rcases hb with rfl | rfl | rfl <;> rw [Utf8.toNat_ofNat (by omega)] at hlt <;> omega
  · rcases hb with rfl | rfl | rfl | rfl <;> rw [Utf8.toNat_ofNat (by omega)] at hlt <;> omega

/-- Only the backslash is spelled with its octet. -/
theorem ne_backslash_of_mem {ch : Char} {b : UInt8} (hb : b ∈ encode ch) (hch : ch ≠ '\\') :
    b ≠ backslash := by
  rintro rfl
  obtain ⟨-, hn⟩ := encode_of_mem hb (by decide)
  exact hch (Char.toNat_inj.1 hn.symm)

theorem encode_of_hex {ch : Char} (h : IsHexDigit ch) : encode ch = [UInt8.ofNat ch.toNat] := by
  rw [isHexDigit_iff_toNat] at h
  obtain ⟨-, he⟩ | ⟨_, _⟩ | ⟨_, _⟩ | ⟨_, _⟩ := Utf8.encode_forms ch
  · exact he
  all_goals omega

/-- A digit is spelled by the octet of that digit. -/
theorem exists_encode_hex {ch : Char} (h : IsHexDigit ch) :
    ∃ b, encode ch = [b] ∧ IsHexOctet b := by
  refine ⟨_, encode_of_hex h, ?_⟩
  rw [isHexDigit_iff_toNat] at h
  rw [isHexOctet_iff_toNat, Utf8.toNat_ofNat (by omega)]
  exact h

/-- The octet of a digit spells that digit. -/
theorem exists_digit_of_octet {s : List Char} {b : UInt8} {bytes : List UInt8}
    (h : encodeAll s = b :: bytes) (hb : IsHexOctet b) :
    ∃ ch rest, s = ch :: rest ∧ IsHexDigit ch ∧ encodeAll rest = bytes := by
  cases s with
  | nil => cases h
  | cons ch rest =>
    obtain ⟨lead, tail, he⟩ := Utf8.exists_encode_cons ch
    rw [Utf8.encodeAll_cons, he] at h
    obtain ⟨rfl, htail⟩ := List.cons.inj h
    have hn := isHexOctet_iff_toNat.1 hb
    have first : lead ∈ encode ch := by simp [he]
    obtain ⟨hone, htoNat⟩ := encode_of_mem first (by omega)
    obtain ⟨-, rfl⟩ := List.cons.inj (he.symm.trans hone)
    refine ⟨ch, rest, rfl, ?_, htail⟩
    rw [isHexDigit_iff_toNat, ← htoNat]
    exact hn

/-- A text begins with two digits. -/
def BeginsWithDigits (s : List Char) : Prop :=
  ∃ high low rest, s = high :: low :: rest ∧ IsHexDigit high ∧ IsHexDigit low

/-- The first two octets of a text are digits if its first two characters are. -/
theorem isHexOctet_and_iff {s : List Char} {high low : UInt8} {bytes : List UInt8}
    (h : encodeAll s = high :: low :: bytes) :
    IsHexOctet high ∧ IsHexOctet low ↔ BeginsWithDigits s := by
  constructor
  · rintro ⟨hh, hl⟩
    obtain ⟨first, s, rfl, hx, hs⟩ := exists_digit_of_octet h hh
    obtain ⟨second, s', rfl, hx', -⟩ := exists_digit_of_octet hs hl
    exact ⟨first, second, s', rfl, hx, hx'⟩
  · rintro ⟨first, second, s, rfl, hx, hx'⟩
    obtain ⟨b, he, hb⟩ := exists_encode_hex hx
    obtain ⟨b', he', hb'⟩ := exists_encode_hex hx'
    simp only [Utf8.encodeAll_cons, he, he', List.cons_append, List.nil_append] at h
    cases h
    exact ⟨hb, hb'⟩

/-! ## Values up to their first bad escape -/

/-- A text whose escapes are good. -/
inductive Sound : List Char → Prop where
  | nil : Sound []
  | other {ch : Char} {rest : List Char} : ch ≠ '\\' → Sound rest → Sound (ch :: rest)
  | escape {high low : Char} {rest : List Char} : IsHexDigit high → IsHexDigit low →
      Sound rest → Sound ('\\' :: high :: low :: rest)

/-- What comes after the backslash of a bad escape: fewer than two digits. -/
structure Broken (digits rest : List Char) : Prop where
  few : digits.length < 2
  hex : ∀ ch ∈ digits, IsHexDigit ch
  stop : ∀ ch ∈ rest.head?, ¬IsHexDigit ch

/-- The escapes of a text are good, or those before the first bad one are. -/
inductive Scan : List Char → Prop where
  | whole {s : List Char} (sound : Sound s) : Scan s
  | broken (before digits rest : List Char) (sound : Sound before) (bad : Broken digits rest) :
      Scan (before ++ '\\' :: (digits ++ rest))

theorem Scan.prepend (s : List Char) {t : List Char} (h : ∀ u, Sound u → Sound (s ++ u))
    (ht : Scan t) : Scan (s ++ t) := by
  cases ht with
  | whole sound => exact .whole (h _ sound)
  | broken before digits rest sound bad =>
    rw [← List.append_assoc]
    exact .broken _ digits rest (h _ sound) bad

theorem scan (s : List Char) : Scan s := by
  -- an escape is passed as a whole
  induction hn : s.length using Nat.strongRecOn generalizing s with
  | ind n ih =>
    subst hn
    cases s with
    | nil => exact .whole .nil
    | cons ch s =>
      by_cases hch : ch = '\\'
      swap
      · exact (ih _ (by simp) s rfl).prepend [ch] fun u hu => .other hch hu
      subst hch
      cases s with
      | nil => exact .broken [] [] [] .nil ⟨by simp, by simp, by simp⟩
      | cons high s =>
        by_cases hh : IsHexDigit high
        swap
        · exact .broken [] [] (high :: s) .nil ⟨by simp, by simp, by simp [hh]⟩
        cases s with
        | nil => exact .broken [] [high] [] .nil ⟨by simp, by simp [hh], by simp⟩
        | cons low s =>
          by_cases hl : IsHexDigit low
          · have shorter : s.length < ('\\' :: high :: low :: s).length := by
              simp only [List.length_cons]
              omega
            exact (ih _ shorter s rfl).prepend ['\\', high, low] fun u hu => .escape hh hl hu
          · exact .broken [] [high] (low :: s) .nil ⟨by simp, by simp [hh], by simp [hl]⟩

/-! ## The scan of octets -/

variable {value : List Char} {offset : Nat}

/-! One equation for each thing that the scan may stand before. -/

theorem errorsFrom_other {b : UInt8} (hb : b ≠ backslash) (t : List UInt8) :
    errorsFrom value offset (b :: t) = errorsFrom value (offset + 1) t := by
  match t with
  | [] => simp [errorsFrom, hb]
  | [_] => simp [errorsFrom, hb]
  | _ :: _ :: _ => rw [errorsFrom, if_pos hb]

theorem errorsFrom_good {high low octet : UInt8} (h : octet? high low = some octet)
    (t : List UInt8) : errorsFrom value offset (backslash :: high :: low :: t) =
      errorsFrom value (offset + 3) t := by
  rw [errorsFrom, if_neg (by simp)]
  simp only [h]

theorem errorsFrom_bad {high low : UInt8} (h : octet? high low = none) (t : List UInt8) :
    errorsFrom value offset (backslash :: high :: low :: t) =
      .invalid offset (textAt value offset) ::
        errorsFrom value (offset + 1) (high :: low :: t) := by
  rw [errorsFrom, if_neg (by simp)]
  simp only [h]

theorem errorsFrom_short {bytes : List UInt8} (h : ∀ high low t, bytes ≠ high :: low :: t) :
    errorsFrom value offset (backslash :: bytes) = [.incomplete offset] := by
  match bytes with
  | [] => rfl
  | [_] => rfl
  | high :: low :: t => exact absurd rfl (h high low t)

/-- Octets that are no backslash are passed. -/
theorem errorsFrom_append {s : List UInt8} (hs : ∀ b ∈ s, b ≠ backslash) (t : List UInt8) :
    errorsFrom value offset (s ++ t) = errorsFrom value (offset + s.length) t := by
  induction s generalizing offset with
  | nil => rfl
  | cons b s ih =>
    obtain ⟨hb, hs⟩ := List.forall_mem_cons.1 hs
    rw [List.cons_append, errorsFrom_other hb, ih hs, List.length_cons]
    congr 1
    omega

/-- A backslash that is not followed by the octets of two digits is an error at its place. -/
theorem errorsFrom_broken {bytes : List UInt8}
    (h : ∀ high low t, bytes = high :: low :: t → ¬(IsHexOctet high ∧ IsHexOctet low)) :
    ∃ e errors, errorsFrom value offset (backslash :: bytes) = e :: errors ∧ e.offset = offset := by
  by_cases hb : ∃ high low t, bytes = high :: low :: t
  · obtain ⟨high, low, t, rfl⟩ := hb
    have none : octet? high low = none := octet?_eq_none_iff.2 (h high low t rfl)
    exact ⟨_, _, errorsFrom_bad none t, rfl⟩
  · have short : ∀ high low t, bytes ≠ high :: low :: t := by
      intro high low t he
      exact hb ⟨high, low, t, he⟩
    exact ⟨_, _, errorsFrom_short short, rfl⟩

/-- Good escapes are passed. -/
theorem Sound.errorsFrom_append {u : List Char} (h : Sound u) (bytes : List UInt8) :
    errorsFrom value offset (encodeAll u ++ bytes) =
      errorsFrom value (offset + (encodeAll u).length) bytes := by
  induction h generalizing offset with
  | nil => rfl
  | @other ch rest hch _ ih =>
    rw [Utf8.encodeAll_cons, List.append_assoc,
      Escape.errorsFrom_append fun b hb => ne_backslash_of_mem hb hch, ih, List.length_append,
      Nat.add_assoc]
  | @escape high low rest hh hl _ ih =>
    obtain ⟨h, he, hh⟩ := exists_encode_hex hh
    obtain ⟨l, le, hl⟩ := exists_encode_hex hl
    have octets : encodeAll ('\\' :: high :: low :: rest) =
        backslash :: h :: l :: encodeAll rest := by
      simp only [Utf8.encodeAll_cons, he, le]
      rfl
    obtain ⟨octet, ho⟩ : ∃ octet, octet? h l = some octet :=
      Option.ne_none_iff_exists'.1 fun none => octet?_eq_none_iff.1 none ⟨hh, hl⟩
    rw [octets]
    show errorsFrom value offset (backslash :: h :: l :: (encodeAll rest ++ bytes)) = _
    rw [errorsFrom_good ho, ih]
    simp only [List.length_cons]
    congr 1
    omega

/-- What comes after the backslash of a bad escape does not begin with two digits. -/
theorem Broken.not_beginsWithDigits {digits rest : List Char} (hb : Broken digits rest) :
    ¬BeginsWithDigits (digits ++ rest) := by
  rintro ⟨first, second, s, hs, hx, hx'⟩
  obtain ⟨few, -, stop⟩ := hb
  match digits with
  | [] =>
    rw [List.nil_append] at hs
    exact stop first (by simp [hs]) hx
  | [_] =>
    obtain ⟨-, rfl⟩ := List.cons.inj hs
    exact stop second rfl hx'
  | _ :: _ :: _ =>
    simp only [List.length_cons] at few
    omega

/-- Digits have one octet each. -/
theorem length_encodeAll_hex {digits : List Char} (h : ∀ ch ∈ digits, IsHexDigit ch) :
    (encodeAll digits).length = digits.length := by
  induction digits with
  | nil => rfl
  | cons ch digits ih =>
    obtain ⟨hch, h⟩ := List.forall_mem_cons.1 h
    obtain ⟨b, he, -⟩ := exists_encode_hex hch
    rw [Utf8.encodeAll_cons, he, List.length_append, ih h]
    simp only [List.length_cons, List.length_nil]
    omega

/-- Whether octet `i` of a value is a digit. -/
def IsHexAt (v : String) (i : Nat) : Prop :=
  ∃ b, v.toUTF8.data[i]? = some b ∧ IsHexOctet b

/-- The octet after the backslash of a bad escape is a digit if the escape has one. -/
theorem Broken.isHexAt_iff {v : String} {before digits rest : List Char}
    (hv : v.toList = before ++ '\\' :: (digits ++ rest)) (hb : Broken digits rest) :
    IsHexAt v ((encodeAll before).length + 1) ↔ digits.length = 1 := by
  have next : v.toUTF8.data[(encodeAll before).length + 1]? =
      (encodeAll (digits ++ rest)).head? := by
    have octets : v.toUTF8.data.toList =
        encodeAll before ++ backslash :: encodeAll (digits ++ rest) := Utf8.toUTF8_of_toList hv
    rw [← Array.getElem?_toList, octets, List.getElem?_append_right (Nat.le_add_right _ _),
      Nat.add_sub_cancel_left, List.getElem?_cons_succ, List.head?_eq_getElem?]
  unfold IsHexAt
  rw [next]
  constructor
  · rintro ⟨b, hhead, hx⟩
    obtain ⟨ch, s, hs, hch, -⟩ := exists_digit_of_octet (List.eq_cons_of_mem_head? hhead) hx
    match digits with
    | [] =>
      rw [List.nil_append] at hs
      exact absurd hch (hb.stop ch (by simp [hs]))
    | [_] => rfl
    | _ :: _ :: _ =>
      have few := hb.few
      simp only [List.length_cons] at few
      omega
  · intro hone
    obtain ⟨ch, rfl⟩ := List.length_eq_one_iff.1 hone
    obtain ⟨b, he, hx⟩ := exists_encode_hex (hb.hex ch (by simp))
    exact ⟨b, by simp [he], hx⟩

/-- A value without a bad escape has no errors. -/
theorem validate_of_sound {v : String} (h : Sound v.toList) : validate v = [] := by
  have whole : errorsFrom v.toList 0 (encodeAll v.toList ++ []) = [] := h.errorsFrom_append []
  rwa [List.append_nil] at whole

/-- The first error of a value is at its first bad escape. -/
theorem validate_of_broken {v : String} {before digits rest : List Char}
    (hv : v.toList = before ++ '\\' :: (digits ++ rest)) (hs : Sound before)
    (hb : Broken digits rest) :
    ∃ e errors, validate v = e :: errors ∧ e.offset = (encodeAll before).length := by
  have octets : encodeAll v.toList =
      encodeAll before ++ backslash :: encodeAll (digits ++ rest) := by
    rw [hv, Utf8.encodeAll_append, Utf8.encodeAll_cons]
    rfl
  unfold validate
  rw [octets, hs.errorsFrom_append, Nat.zero_add]
  apply errorsFrom_broken
  intro high low t h
  rw [isHexOctet_and_iff h]
  exact hb.not_beginsWithDigits

/-- Decoding finds the errors that the scan finds. -/
theorem snd_decodeFrom (bytes : List UInt8) :
    (decodeFrom value offset bytes).2 = errorsFrom value offset bytes := by
  fun_induction decodeFrom value offset bytes with
  | case1 => rfl
  | case2 offset b rest hb octets errors hd ih => rw [errorsFrom_other hb, ← ih, hd]
  | case3 offset b hb high low rest octet ho octets errors hd ih =>
    rw [not_not.1 hb, errorsFrom_good ho, ← ih, hd]
  | case4 offset b hb high low rest ho octets errors hd ih =>
    rw [not_not.1 hb, errorsFrom_bad ho, ← ih, hd]
  | case5 offset b rest hb short => rw [not_not.1 hb, errorsFrom_short short]

/-- A value can be decoded if it has no errors. -/
theorem exists_decode_iff {v : String} : (∃ octets, decode v = .ok octets) ↔ validate v = [] := by
  unfold validate decode
  rw [← snd_decodeFrom]
  obtain ⟨octets, errors⟩ := decodeFrom v.toList 0 (encodeAll v.toList)
  cases errors with
  | nil => simp
  | cons e errors => simp

end LdapFilter.Escape
