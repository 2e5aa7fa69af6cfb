import Mathlib.Data.List.Basic
import LdapFilter.Text.Utf8

/-!
# The tables of UTF-8 and the spellings of characters

The tables say how many octets a sequence has that begins with a given octet, and which octets may
come next. They accept exactly the spellings of characters: the octets of each character pass
them (`encode_table`), and what passes them to its end is the spelling of one (`exists_encode`). No
spelling is the beginning of another (`eq_of_encode_append`).
-/

namespace LdapFilter.Utf8

/-! ## Spellings -/

/-- The number of a character is no surrogate and not too large. -/
theorem toNat_valid (c : Char) : c.toNat < 0xD800 ∨ 0xDFFF < c.toNat ∧ c.toNat < 0x110000 :=
  c.valid

/-- The four forms of a spelling. -/
theorem encode_forms (c : Char) :
    (c.toNat < 0x80 ∧ encode c = [UInt8.ofNat c.toNat]) ∨
    (0x80 ≤ c.toNat ∧ c.toNat < 0x800 ∧
      encode c = [UInt8.ofNat (c.toNat / 64 % 32 + 0xC0), UInt8.ofNat (c.toNat % 64 + 0x80)]) ∨
    (0x800 ≤ c.toNat ∧ c.toNat < 0x10000 ∧
      encode c = [UInt8.ofNat (c.toNat / 4096 % 16 + 0xE0),
        UInt8.ofNat (c.toNat / 64 % 64 + 0x80), UInt8.ofNat (c.toNat % 64 + 0x80)]) ∨
    (0x10000 ≤ c.toNat ∧
      encode c = [UInt8.ofNat (c.toNat / 262144 % 8 + 0xF0),
        UInt8.ofNat (c.toNat / 4096 % 64 + 0x80), UInt8.ofNat (c.toNat / 64 % 64 + 0x80),
        UInt8.ofNat (c.toNat % 64 + 0x80)]) := by
  have form : encode c = String.utf8EncodeChar c := rfl
  simp only [String.utf8EncodeChar, show c.val.toNat = c.toNat from rfl] at form
  rw [form]
  by_cases h1 : c.toNat ≤ 0x7F
  · rw [if_pos h1]
    exact .inl ⟨by omega, rfl⟩
  by_cases h2 : c.toNat ≤ 0x7FF
  · rw [if_neg h1, if_pos h2]
    exact .inr (.inl ⟨by omega, by omega, rfl⟩)
  by_cases h3 : c.toNat ≤ 0xFFFF
  · rw [if_neg h1, if_neg h2, if_pos h3]
    exact .inr (.inr (.inl ⟨by omega, by omega, rfl⟩))
  · rw [if_neg h1, if_neg h2, if_neg h3]
    exact .inr (.inr (.inr ⟨by omega, rfl⟩))

theorem length_encode (c : Char) : (encode c).length = c.utf8Size :=
  String.length_utf8EncodeChar c

theorem toNat_ofNat {n : Nat} (h : n < 256) : (UInt8.ofNat n).toNat = n :=
  UInt8.toNat_ofNat_of_lt' h

/-- The payload of a spelling is the number of its character. -/
theorem payload_encode (c : Char) : payload (encode c) = c.toNat := by
  have := toNat_valid c
  obtain ⟨h, he⟩ | ⟨h, h', he⟩ | ⟨h, h', he⟩ | ⟨h, he⟩ := encode_forms c <;> rw [he]
  · exact toNat_ofNat (by omega)
  · simp only [payload, toNat_ofNat (show c.toNat / 64 % 32 + 0xC0 < 256 by omega),
      toNat_ofNat (show c.toNat % 64 + 0x80 < 256 by omega)]
    omega
  · simp only [payload, toNat_ofNat (show c.toNat / 4096 % 16 + 0xE0 < 256 by omega),
      toNat_ofNat (show c.toNat / 64 % 64 + 0x80 < 256 by omega),
      toNat_ofNat (show c.toNat % 64 + 0x80 < 256 by omega)]
    omega
  · simp only [payload, toNat_ofNat (show c.toNat / 262144 % 8 + 0xF0 < 256 by omega),
      toNat_ofNat (show c.toNat / 4096 % 64 + 0x80 < 256 by omega),
      toNat_ofNat (show c.toNat / 64 % 64 + 0x80 < 256 by omega),
      toNat_ofNat (show c.toNat % 64 + 0x80 < 256 by omega)]
    omega

theorem scalar?_encode (c : Char) : scalar? (encode c) = some c := by
  rw [scalar?, payload_encode, Char.ofNat_toNat, Option.filter_some]
  simp

theorem encode_injective {c d : Char} (h : encode c = encode d) : c = d := by
  have := scalar?_encode c
  rw [h, scalar?_encode d] at this
  exact (Option.some.inj this).symm

@[simp] theorem encodeAll_nil : encodeAll [] = [] :=
  rfl

@[simp] theorem encodeAll_cons (ch : Char) (s : List Char) :
    encodeAll (ch :: s) = encode ch ++ encodeAll s :=
  rfl

@[simp] theorem encodeAll_append (s t : List Char) :
    encodeAll (s ++ t) = encodeAll s ++ encodeAll t :=
  List.flatMap_append

theorem length_encodeAll_concat (s : List Char) (ch : Char) :
    (encodeAll (s ++ [ch])).length = (encodeAll s).length + ch.utf8Size := by
  simp [length_encode]

/-- Only the empty text has no octets. -/
theorem eq_nil_of_length_encodeAll {s : List Char} (h : (encodeAll s).length = 0) : s = [] := by
  cases s with
  | nil => rfl
  | cons ch s =>
    have pos := ch.utf8Size_pos
    rw [encodeAll_cons, List.length_append, length_encode] at h
    omega

/-- The octets of a text are those that spell its characters. -/
theorem encodeAll_toList (text : String) :
    encodeAll text.toList = text.toUTF8.data.toList := by
  have octets : (String.ofList text.toList).toByteArray = (encodeAll text.toList).toByteArray :=
    String.toByteArray_ofList
  rw [String.ofList_toList] at octets
  rw [String.toUTF8_eq_toByteArray, octets, List.toList_data_toByteArray]

theorem toUTF8_ofList (text : List Char) :
    (String.ofList text).toUTF8.data.toList = encodeAll text := by
  rw [← encodeAll_toList, String.toList_ofList]

/-- The octets of a text are those on both sides of a place between its characters. -/
theorem toUTF8_of_toList {text : String} {before after : List Char}
    (h : text.toList = before ++ after) :
    text.toUTF8.data.toList = encodeAll before ++ encodeAll after := by
  rw [← encodeAll_toList, h, encodeAll_append]

theorem length_encodeAll_toList (text : String) :
    (encodeAll text.toList).length = text.utf8ByteSize := by
  rw [encodeAll_toList, Array.length_toList]
  rfl

theorem eq_ofList_append {text : String} {before after : List Char}
    (h : text.toList = before ++ after) : text = String.ofList before ++ String.ofList after := by
  rw [← String.ofList_append, ← h, String.ofList_toList]

theorem rawEndPos_ofList (s : List Char) :
    (String.ofList s).rawEndPos = ⟨(encodeAll s).length⟩ := by
  have octets := length_encodeAll_toList (String.ofList s)
  rw [String.toList_ofList] at octets
  rw [octets]
  rfl

/-- The octets of a beginning of a text end between characters. -/
theorem isValid_of_toList {text : String} {before after : List Char}
    (h : text.toList = before ++ after) :
    String.Pos.Raw.IsValid text ⟨(encodeAll before).length⟩ :=
  String.Pos.Raw.isValid_iff_exists_append.2
    ⟨_, _, eq_ofList_append h, (rawEndPos_ofList before).symm⟩

/-! ## The tables in numbers -/

theorem sequenceLength?_forms (b : UInt8) :
    (b.toNat < 0xC2 ∧ sequenceLength? b = none) ∨
    (0xC2 ≤ b.toNat ∧ b.toNat < 0xE0 ∧ sequenceLength? b = some 2) ∨
    (0xE0 ≤ b.toNat ∧ b.toNat < 0xF0 ∧ sequenceLength? b = some 3) ∨
    (0xF0 ≤ b.toNat ∧ b.toNat < 0xF5 ∧ sequenceLength? b = some 4) ∨
    (0xF5 ≤ b.toNat ∧ sequenceLength? b = none) := by
  unfold sequenceLength? classOf?
  simp only [UInt8.le_iff_toNat_le, UInt8.reduceToNat]
  by_cases h1 : b.toNat ≤ 0x7F
  · simp only [h1, if_true]
    exact .inl ⟨by omega, trivial⟩
  by_cases h2 : b.toNat ≤ 0xBF
  · simp only [h1, h2, if_true, if_false]
    exact .inl ⟨by omega, trivial⟩
  by_cases h3 : b.toNat ≤ 0xC1
  · simp only [h1, h2, h3, if_true, if_false]
    exact .inl ⟨by omega, trivial⟩
  by_cases h4 : b.toNat ≤ 0xDF
  · simp only [h1, h2, h3, h4, if_true, if_false]
    exact .inr (.inl ⟨by omega, by omega, trivial⟩)
  by_cases h5 : b.toNat ≤ 0xEF
  · simp only [h1, h2, h3, h4, h5, if_true, if_false]
    exact .inr (.inr (.inl ⟨by omega, by omega, trivial⟩))
  by_cases h6 : b.toNat ≤ 0xF4
  · simp only [h1, h2, h3, h4, h5, h6, if_true, if_false]
    exact .inr (.inr (.inr (.inl ⟨by omega, by omega, trivial⟩)))
  · simp only [h1, h2, h3, h4, h5, h6, if_false]
    exact .inr (.inr (.inr (.inr ⟨by omega, trivial⟩)))

theorem sequenceLength?_eq_some_iff {b : UInt8} {n : Nat} :
    sequenceLength? b = some n ↔ (n = 2 ∧ 0xC2 ≤ b.toNat ∧ b.toNat < 0xE0) ∨
      (n = 3 ∧ 0xE0 ≤ b.toNat ∧ b.toNat < 0xF0) ∨ (n = 4 ∧ 0xF0 ≤ b.toNat ∧ b.toNat < 0xF5) := by
  obtain ⟨_, hs⟩ | ⟨_, _, hs⟩ | ⟨_, _, hs⟩ | ⟨_, _, hs⟩ | ⟨_, hs⟩ := sequenceLength?_forms b <;>
    simp [hs] <;> omega

theorem sequenceLength?_eq_none_iff {b : UInt8} :
    sequenceLength? b = none ↔ b.toNat < 0xC2 ∨ 0xF5 ≤ b.toNat := by
  obtain ⟨_, hs⟩ | ⟨_, _, hs⟩ | ⟨_, _, hs⟩ | ⟨_, _, hs⟩ | ⟨_, hs⟩ := sequenceLength?_forms b <;>
    simp [hs] <;> omega

theorem secondRange_forms (lead : UInt8) :
    (lead.toNat = 0xE0 ∧ secondRange lead = (0xA0, 0xBF)) ∨
    (lead.toNat = 0xED ∧ secondRange lead = (0x80, 0x9F)) ∨
    (lead.toNat = 0xF0 ∧ secondRange lead = (0x90, 0xBF)) ∨
    (lead.toNat = 0xF4 ∧ secondRange lead = (0x80, 0x8F)) ∨
    (lead.toNat ≠ 0xE0 ∧ lead.toNat ≠ 0xED ∧ lead.toNat ≠ 0xF0 ∧ lead.toNat ≠ 0xF4 ∧
      secondRange lead = (0x80, 0xBF)) := by
  unfold secondRange
  split
  · exact .inl ⟨rfl, rfl⟩
  · exact .inr (.inl ⟨rfl, rfl⟩)
  · exact .inr (.inr (.inl ⟨rfl, rfl⟩))
  · exact .inr (.inr (.inr (.inl ⟨rfl, rfl⟩)))
  · next h1 h2 h3 h4 =>
    have ne {n : UInt8} (h : lead ≠ n) : lead.toNat ≠ n.toNat := fun he => h (UInt8.toNat_inj.1 he)
    exact .inr (.inr (.inr (.inr ⟨ne h1, ne h2, ne h3, ne h4, rfl⟩)))

/-- What may come right after an octet: any octet that continues a sequence, but for four octets
that allow only some. -/
theorem acceptsContinuation_one_iff {lead b : UInt8} :
    acceptsContinuation lead 1 b ↔ 0x80 ≤ b.toNat ∧ b.toNat < 0xC0 ∧
      (lead.toNat = 0xE0 → 0xA0 ≤ b.toNat) ∧ (lead.toNat = 0xED → b.toNat < 0xA0) ∧
      (lead.toNat = 0xF0 → 0x90 ≤ b.toNat) ∧ (lead.toNat = 0xF4 → b.toNat < 0x90) := by
  simp only [acceptsContinuation, if_true, Bool.and_eq_true, decide_eq_true_eq,
    UInt8.le_iff_toNat_le]
  obtain ⟨hl, hr⟩ | ⟨hl, hr⟩ | ⟨hl, hr⟩ | ⟨hl, hr⟩ | ⟨h1, h2, h3, h4, hr⟩ :=
    secondRange_forms lead <;> simp only [hr, UInt8.reduceToNat] <;> omega

theorem acceptsContinuation_succ_iff {lead b : UInt8} {index : Nat} (h : index ≠ 1) :
    acceptsContinuation lead index b ↔ 0x80 ≤ b.toNat ∧ b.toNat < 0xC0 := by
  simp only [acceptsContinuation, if_neg h, isUtf0, Bool.and_eq_true, decide_eq_true_eq,
    UInt8.le_iff_toNat_le, UInt8.reduceToNat]
  omega

/-! ## What the tables accept -/

/-- Every octet of `tail` may stand where it does after `lead`, the first of them `index` octets
after it. -/
def Continues (lead : UInt8) (index : Nat) : List UInt8 → Prop
  | [] => True
  | b :: tail => acceptsContinuation lead index b ∧ Continues lead (index + 1) tail

/-- The octets of a character pass the tables. -/
theorem encode_table {c : Char} {lead : UInt8} {tail : List UInt8} (h : encode c = lead :: tail) :
    (lead.toNat = c.toNat ∧ lead.toNat < 0x80 ∧ tail = []) ∨
      (0x80 ≤ c.toNat ∧ sequenceLength? lead = some (tail.length + 1) ∧
        Continues lead 1 tail) := by
  have valid := toNat_valid c
  obtain ⟨hc, he⟩ | ⟨hc, hc', he⟩ | ⟨hc, hc', he⟩ | ⟨hc, he⟩ := encode_forms c
  all_goals
    obtain ⟨rfl, rfl⟩ := List.cons.inj (he.symm.trans h)
  · have := toNat_ofNat (show c.toNat < 256 by omega)
    exact .inl ⟨this, by omega, rfl⟩
  · have hl := toNat_ofNat (show c.toNat / 64 % 32 + 0xC0 < 256 by omega)
    have hb := toNat_ofNat (show c.toNat % 64 + 0x80 < 256 by omega)
    refine .inr ⟨by omega, ?_, ?_, trivial⟩
    · rw [sequenceLength?_eq_some_iff]
      exact .inl ⟨rfl, by omega, by omega⟩
    · rw [acceptsContinuation_one_iff]
      omega
  · have hl := toNat_ofNat (show c.toNat / 4096 % 16 + 0xE0 < 256 by omega)
    have hb := toNat_ofNat (show c.toNat / 64 % 64 + 0x80 < 256 by omega)
    have hb' := toNat_ofNat (show c.toNat % 64 + 0x80 < 256 by omega)
    refine .inr ⟨by omega, ?_, ?_, ?_, trivial⟩
    · rw [sequenceLength?_eq_some_iff]
      exact .inr (.inl ⟨rfl, by omega, by omega⟩)
    · rw [acceptsContinuation_one_iff]
      omega
    · rw [acceptsContinuation_succ_iff (by decide)]
      omega
  · have hl := toNat_ofNat (show c.toNat / 262144 % 8 + 0xF0 < 256 by omega)
    have hb := toNat_ofNat (show c.toNat / 4096 % 64 + 0x80 < 256 by omega)
    have hb' := toNat_ofNat (show c.toNat / 64 % 64 + 0x80 < 256 by omega)
    have hb'' := toNat_ofNat (show c.toNat % 64 + 0x80 < 256 by omega)
    refine .inr ⟨by omega, ?_, ?_, ?_, ?_, trivial⟩
    · rw [sequenceLength?_eq_some_iff]
      exact .inr (.inr ⟨rfl, by omega, by omega⟩)
    · rw [acceptsContinuation_one_iff]
      omega
    · rw [acceptsContinuation_succ_iff (by decide)]
      omega
    · rw [acceptsContinuation_succ_iff (by decide)]
      omega

/-- A number that is no surrogate and not too large has a character. -/
theorem exists_toNat_eq {n : Nat} (h : n < 0xD800 ∨ 0xDFFF < n ∧ n < 0x110000) :
    ∃ c : Char, c.toNat = n :=
  ⟨Char.ofNatAux n h, rfl⟩

theorem ofNat_eq {b : UInt8} {n : Nat} (h : n = b.toNat) : UInt8.ofNat n = b := by
  rw [h, UInt8.ofNat_toNat]

/-- A small octet is a spelling by itself. -/
theorem exists_encode_of_lt {b : UInt8} (h : b < 0x80) : ∃ c, encode c = [b] := by
  have h : b.toNat < 0x80 := UInt8.lt_iff_toNat_lt.1 h
  obtain ⟨c, hc⟩ := exists_toNat_eq (n := b.toNat) (by omega)
  refine ⟨c, ?_⟩
  obtain ⟨_, he⟩ | ⟨_, _, he⟩ | ⟨_, _, he⟩ | ⟨_, he⟩ := encode_forms c
  · rw [he, ofNat_eq hc]
  all_goals omega

/-- What passes the tables to its end is the spelling of a character. -/
theorem exists_encode {lead : UInt8} {tail : List UInt8}
    (hl : sequenceLength? lead = some (tail.length + 1)) (ht : Continues lead 1 tail) :
    ∃ c, encode c = lead :: tail := by
  obtain ⟨hn, h, h'⟩ | ⟨hn, h, h'⟩ | ⟨hn, h, h'⟩ := sequenceLength?_eq_some_iff.1 hl
  · obtain ⟨b, rfl⟩ := List.length_eq_one_iff.1 (show tail.length = 1 by omega)
    have hb := acceptsContinuation_one_iff.1 ht.1
    obtain ⟨c, hc⟩ := exists_toNat_eq (n := lead.toNat % 32 * 64 + b.toNat % 64) (by omega)
    refine ⟨c, ?_⟩
    obtain ⟨_, he⟩ | ⟨_, _, he⟩ | ⟨_, _, he⟩ | ⟨_, he⟩ := encode_forms c
    rotate_left
    · rw [he, ofNat_eq (b := lead) (by omega), ofNat_eq (b := b) (by omega)]
    all_goals omega
  · obtain ⟨b, b', rfl⟩ := List.length_eq_two.1 (show tail.length = 2 by omega)
    have hb := acceptsContinuation_one_iff.1 ht.1
    have hb' := (acceptsContinuation_succ_iff (by decide)).1 ht.2.1
    obtain ⟨c, hc⟩ := exists_toNat_eq
      (n := (lead.toNat % 16 * 64 + b.toNat % 64) * 64 + b'.toNat % 64) (by omega)
    refine ⟨c, ?_⟩
    obtain ⟨_, he⟩ | ⟨_, _, he⟩ | ⟨_, _, he⟩ | ⟨_, he⟩ := encode_forms c
    rotate_left 2
    · rw [he, ofNat_eq (b := lead) (by omega), ofNat_eq (b := b) (by omega),
        ofNat_eq (b := b') (by omega)]
    all_goals omega
  · obtain ⟨b, b', b'', rfl⟩ := List.length_eq_three.1 (show tail.length = 3 by omega)
    have hb := acceptsContinuation_one_iff.1 ht.1
    have hb' := (acceptsContinuation_succ_iff (by decide)).1 ht.2.1
    have hb'' := (acceptsContinuation_succ_iff (by decide)).1 ht.2.2.1
    obtain ⟨c, hc⟩ := exists_toNat_eq (n := ((lead.toNat % 8 * 64 + b.toNat % 64) * 64 +
      b'.toNat % 64) * 64 + b''.toNat % 64) (by omega)
    refine ⟨c, ?_⟩
    obtain ⟨_, he⟩ | ⟨_, _, he⟩ | ⟨_, _, he⟩ | ⟨_, he⟩ := encode_forms c
    rotate_left 3
    · rw [he, ofNat_eq (b := lead) (by omega), ofNat_eq (b := b) (by omega),
        ofNat_eq (b := b') (by omega), ofNat_eq (b := b'') (by omega)]
    all_goals omega

theorem exists_encode_cons (c : Char) : ∃ lead tail, encode c = lead :: tail := by
  apply List.exists_cons_of_ne_nil
  intro h
  have := length_encode c
  rw [h] at this
  exact absurd this.symm (Nat.ne_of_gt c.utf8Size_pos)

/-- No spelling is the beginning of another. -/
theorem eq_of_encode_append {c d : Char} {r r' : List UInt8}
    (h : encode c ++ r = encode d ++ r') : c = d ∧ r = r' := by
  obtain ⟨lead, tail, hc⟩ := exists_encode_cons c
  obtain ⟨lead', tail', hd⟩ := exists_encode_cons d
  rw [hc, hd] at h
  obtain ⟨rfl, htail⟩ := List.cons.inj h
  have len : tail.length = tail'.length := by
    obtain ⟨hl, hl', rfl⟩ | ⟨_, hn, _⟩ := encode_table hc
    · obtain ⟨_, _, rfl⟩ | ⟨_, hn', _⟩ := encode_table hd
      · rfl
      · rw [sequenceLength?_eq_none_iff.2 (.inl (by omega))] at hn'
        cases hn'
    · obtain ⟨_, hl', rfl⟩ | ⟨_, hn', _⟩ := encode_table hd
      · rw [sequenceLength?_eq_none_iff.2 (.inl (by omega))] at hn
        cases hn
      · exact Nat.succ.inj (Option.some.inj (hn.symm.trans hn'))
  obtain ⟨rfl, rfl⟩ := List.append_inj htail len
  exact ⟨encode_injective (hc.trans hd.symm), rfl⟩

end LdapFilter.Utf8
