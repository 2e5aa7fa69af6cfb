import LdapFilter.Proofs.EscapeDecoding
import Mathlib.Data.List.Forall2

/-!
# The places of bad escapes

The scan of a value passes good escapes as a whole, goes on behind the backslash of a bad one and
stops at one that breaks off. What it reports can be said place by place, without a scan
(`errorsFrom_eq_reported`): an invalid escape is a backslash with two more octets behind it that are
not both digits (`IsInvalidAt`), and the first backslash with fewer octets behind it breaks off
(`IsCutAt`). No error is lost where the scan jumps, as digits are no backslashes.

Places are counted in octets, and the text of an error is cut out of characters. A backslash among
the octets is always a character (`exists_split_of_backslash`), so each text begins with one.
-/

namespace LdapFilter.Escape

open Utf8 (encode encodeAll)

/-! ## Places -/

/-- Octet `i` is a digit. -/
def IsDigitAt (bytes : List UInt8) (i : Nat) : Prop :=
  ∃ b ∈ bytes[i]?, IsHexOctet b

/-- Octet `i` is a backslash with two octets behind it that are not both digits. -/
def IsInvalidAt (bytes : List UInt8) (i : Nat) : Prop :=
  bytes[i]? = some backslash ∧ i + 2 < bytes.length ∧
    ¬(IsDigitAt bytes (i + 1) ∧ IsDigitAt bytes (i + 2))

/-- Octet `i` is a backslash with fewer than two octets behind it. -/
def IsCutAt (bytes : List UInt8) (i : Nat) : Prop :=
  bytes[i]? = some backslash ∧ bytes.length ≤ i + 2

instance (bytes : List UInt8) (i : Nat) : Decidable (IsDigitAt bytes i) :=
  inferInstanceAs (Decidable (∃ b ∈ bytes[i]?, IsHexOctet b))

instance (bytes : List UInt8) (i : Nat) : Decidable (IsInvalidAt bytes i) :=
  inferInstanceAs (Decidable (_ ∧ _ ∧ _))

instance (bytes : List UInt8) (i : Nat) : Decidable (IsCutAt bytes i) :=
  inferInstanceAs (Decidable (_ ∧ _))

/-- The places of the invalid escapes, in order. -/
def invalidPlaces (bytes : List UInt8) : List Nat :=
  (List.range bytes.length).filter fun i => IsInvalidAt bytes i

/-- The place of the first escape that breaks off. -/
def firstCut? (bytes : List UInt8) : Option Nat :=
  (List.range bytes.length).find? fun i => IsCutAt bytes i

variable {b high low : UInt8} {bytes : List UInt8} {i : Nat}

theorem isInvalidAt_cons_succ : IsInvalidAt (b :: bytes) (i + 1) ↔ IsInvalidAt bytes i := by
  have inside : i + 1 + 2 < bytes.length + 1 ↔ i + 2 < bytes.length := by omega
  simp [IsInvalidAt, IsDigitAt, inside]

theorem isCutAt_cons_succ : IsCutAt (b :: bytes) (i + 1) ↔ IsCutAt bytes i := by
  simp [IsCutAt]

theorem not_isInvalidAt_zero (hb : b ≠ backslash) : ¬IsInvalidAt (b :: bytes) 0 := by
  simp [IsInvalidAt, hb]

theorem not_isCutAt_zero (hb : b ≠ backslash) : ¬IsCutAt (b :: bytes) 0 := by
  simp [IsCutAt, hb]

theorem IsHexOctet.ne_backslash (h : IsHexOctet b) : b ≠ backslash := by
  rintro rfl
  revert h
  decide

theorem isInvalidAt_zero_iff :
    IsInvalidAt (backslash :: high :: low :: bytes) 0 ↔ octet? high low = none := by
  rw [octet?_eq_none_iff]
  simp [IsInvalidAt, IsDigitAt]

theorem isCutAt_zero_iff : IsCutAt (backslash :: bytes) 0 ↔ bytes.length < 2 := by
  simp only [IsCutAt, List.getElem?_cons_zero, true_and, List.length_cons]
  omega

theorem invalidPlaces_cons : invalidPlaces (b :: bytes) =
    (if IsInvalidAt (b :: bytes) 0 then [0] else []) ++ (invalidPlaces bytes).map (· + 1) := by
  have later : ((List.range bytes.length).map (· + 1)).filter
      (fun i => IsInvalidAt (b :: bytes) i) = (invalidPlaces bytes).map (· + 1) := by
    simp only [List.filter_map, Function.comp_def, isInvalidAt_cons_succ, invalidPlaces]
  rw [invalidPlaces, List.length_cons, List.range_succ_eq_map, List.filter_cons, later]
  by_cases h : IsInvalidAt (b :: bytes) 0 <;> simp [h]

theorem firstCut?_cons : firstCut? (b :: bytes) =
    if IsCutAt (b :: bytes) 0 then some 0 else (firstCut? bytes).map (· + 1) := by
  have later : ((List.range bytes.length).map (· + 1)).find?
      (fun i => IsCutAt (b :: bytes) i) = (firstCut? bytes).map (· + 1) := by
    simp only [List.find?_map, Function.comp_def, isCutAt_cons_succ, firstCut?]
  rw [firstCut?, List.length_cons, List.range_succ_eq_map, List.find?_cons, later]
  by_cases h : IsCutAt (b :: bytes) 0 <;> simp [h]

theorem mem_invalidPlaces : i ∈ invalidPlaces bytes ↔ IsInvalidAt bytes i := by
  rw [invalidPlaces, List.mem_filter, List.mem_range, decide_eq_true_iff]
  refine and_iff_right_of_imp fun h => ?_
  have inside := h.2.1
  omega

theorem firstCut?_eq_some_iff :
    firstCut? bytes = some i ↔ IsCutAt bytes i ∧ ∀ j < i, ¬IsCutAt bytes j := by
  simp only [firstCut?, List.find?_range_eq_some, List.mem_range, decide_eq_true_eq,
    Bool.not_eq_true', decide_eq_false_iff_not]
  refine and_congr_right fun h => and_iff_right ?_
  exact (List.getElem?_eq_some_iff.1 h.1).1

/-- If an escape breaks off, one at its place or before it is the first that does. -/
theorem IsCutAt.exists_first (h : IsCutAt bytes i) : ∃ j ≤ i, firstCut? bytes = some j := by
  cases hf : firstCut? bytes with
  | none =>
    have inside := (List.getElem?_eq_some_iff.1 h.1).1
    have none := List.find?_range_eq_none.1 hf i inside
    simp [h] at none
  | some j =>
    refine ⟨j, Nat.le_of_not_lt fun hlt => ?_, rfl⟩
    exact (firstCut?_eq_some_iff.1 hf).2 i hlt h

/-! ## The scan, place by place -/

variable {value : List Char} {offset : Nat}

/-- The errors at the places of the octets `bytes`, which begin at `offset` of `value`. -/
def reported (value : List Char) (offset : Nat) (bytes : List UInt8) : List EscapeError :=
  (invalidPlaces bytes).map (fun i => .invalid (offset + i) (textAt value (offset + i))) ++
    (firstCut? bytes).toList.map fun i => .incomplete (offset + i)

/-- Where no bad escape begins, what is reported is what is reported behind it. -/
theorem reported_cons (hi : ¬IsInvalidAt (b :: bytes) 0) (hc : ¬IsCutAt (b :: bytes) 0) :
    reported value offset (b :: bytes) = reported value (offset + 1) bytes := by
  simp only [reported, invalidPlaces_cons, firstCut?_cons, if_neg hi, if_neg hc, List.nil_append,
    List.map_map, Option.toList_map, Function.comp_def, Nat.add_assoc, Nat.add_comm 1]

theorem reported_other (hb : b ≠ backslash) :
    reported value offset (b :: bytes) = reported value (offset + 1) bytes :=
  reported_cons (not_isInvalidAt_zero hb) (not_isCutAt_zero hb)

theorem reported_invalid (hi : IsInvalidAt (b :: bytes) 0) :
    reported value offset (b :: bytes) =
      .invalid offset (textAt value offset) :: reported value (offset + 1) bytes := by
  have whole : ¬IsCutAt (b :: bytes) 0 := fun cut => Nat.not_lt.2 cut.2 hi.2.1
  simp only [reported, invalidPlaces_cons, firstCut?_cons, if_pos hi, if_neg whole, List.map_cons,
    List.cons_append, List.nil_append, List.map_map, Option.toList_map, Function.comp_def,
    Nat.add_zero, Nat.add_assoc, Nat.add_comm 1]

/-- Behind a good escape the scan goes on: its digits are no backslashes. -/
theorem reported_good {octet : UInt8} (h : octet? high low = some octet) :
    reported value offset (backslash :: high :: low :: bytes) =
      reported value (offset + 3) bytes := by
  have hex : IsHexOctet high ∧ IsHexOctet low := by
    by_contra hn
    cases h.symm.trans (octet?_eq_none_iff.2 hn)
  have good : ¬IsInvalidAt (backslash :: high :: low :: bytes) 0 := by
    rw [isInvalidAt_zero_iff, h]
    nofun
  have whole : ¬IsCutAt (backslash :: high :: low :: bytes) 0 := by
    rw [isCutAt_zero_iff]
    simp
  rw [reported_cons good whole, reported_other hex.1.ne_backslash,
    reported_other hex.2.ne_backslash]

/-- An escape that breaks off is the last thing to report. -/
theorem reported_cut (h : IsCutAt (b :: bytes) 0) :
    reported value offset (b :: bytes) = [.incomplete offset] := by
  have none : invalidPlaces (b :: bytes) = [] := by
    rw [invalidPlaces, List.filter_eq_nil_iff]
    intro i _ hi
    have inside := (of_decide_eq_true hi).2.1
    have short := h.2
    omega
  rw [reported, none, firstCut?_cons, if_pos h]
  rfl

theorem isCutAt_zero_of_short (h : ∀ high low t, bytes ≠ high :: low :: t) :
    IsCutAt (backslash :: bytes) 0 := by
  rw [isCutAt_zero_iff]
  match bytes with
  | [] | [_] => simp
  | high :: low :: t => exact absurd rfl (h high low t)

/-- The scan reports the errors at all places. -/
theorem errorsFrom_eq_reported (bytes : List UInt8) :
    errorsFrom value offset bytes = reported value offset bytes := by
  -- one case for each way the scan goes on; it jumps only over the digits of a good escape
  fun_induction errorsFrom value offset bytes with
  | case1 => rfl
  | case2 offset b rest hb ih => rw [reported_other hb, ih]
  | case3 offset b hb high low rest octet ho ih => rw [not_not.1 hb, reported_good ho, ih]
  | case4 offset b hb high low rest ho ih =>
    rw [not_not.1 hb, reported_invalid (isInvalidAt_zero_iff.2 ho), ih]
  | case5 offset b rest hb short => rw [not_not.1 hb, reported_cut (isCutAt_zero_of_short short)]

/-! ## The text of an error -/

/-- A backslash among the octets of a text is a character of it. -/
theorem exists_split_of_backslash {s : List Char} (h : (encodeAll s)[i]? = some backslash) :
    ∃ before rest, s = before ++ '\\' :: rest ∧ (encodeAll before).length = i := by
  induction s generalizing i with
  | nil => simp at h
  | cons ch s ih =>
    rw [Utf8.encodeAll_cons] at h
    by_cases hi : i < (encode ch).length
    · rw [List.getElem?_append_left hi] at h
      have hch : ch = '\\' := by
        by_contra hne
        exact ne_backslash_of_mem (List.mem_of_getElem? h) hne rfl
      subst hch
      have one : (encode '\\').length = 1 := rfl
      exact ⟨[], s, rfl, by simp; omega⟩
    · rw [List.getElem?_append_right (by omega)] at h
      obtain ⟨before, rest, rfl, hbefore⟩ := ih h
      exact ⟨ch :: before, rest, rfl, by simp; omega⟩

/-- The text of an error has the first three characters from its place on. -/
theorem textAt_append (before rest : List Char) :
    textAt (before ++ rest) (encodeAll before).length = String.ofList (rest.take 3) := by
  unfold textAt
  congr 1
  induction before with
  | nil => cases rest <;> rfl
  | cons ch before ih =>
    have pos := ch.utf8Size_pos
    rw [Utf8.encodeAll_cons, List.length_append, Utf8.length_encode, List.cons_append, textAt.go,
      if_neg (by omega), Nat.add_sub_cancel_left, ih]

/-- The error `e` is that an invalid escape is at octet `offset` of `v`, and its text is that of the
characters from there on, three at most. -/
def ShowsInvalid (v : String) (offset : Nat) (e : EscapeError) : Prop :=
  ∃ before rest, v.toList = before ++ rest ∧ (encodeAll before).length = offset ∧
    e = .invalid offset (String.ofList (rest.take 3))

theorem showsInvalid_textAt {v : String} (h : IsInvalidAt (encodeAll v.toList) i) :
    ShowsInvalid v i (.invalid i (textAt v.toList i)) := by
  obtain ⟨before, rest, hv, rfl⟩ := exists_split_of_backslash h.1
  refine ⟨before, '\\' :: rest, hv, rfl, ?_⟩
  rw [hv, textAt_append]

theorem validate_eq_reported (v : String) :
    validate v = reported v.toList 0 (encodeAll v.toList) :=
  errorsFrom_eq_reported _

/-- **The errors of a value.** There is one for each invalid escape, in the order of their places,
and after them one for the first escape that breaks off, if there is any. -/
theorem validate_by_places (v : String) :
    ∃ invalid, List.Forall₂ (ShowsInvalid v) (invalidPlaces v.toUTF8.data.toList) invalid ∧
      validate v = invalid ++ (firstCut? v.toUTF8.data.toList).toList.map .incomplete := by
  rw [← Utf8.encodeAll_toList]
  refine ⟨(invalidPlaces (encodeAll v.toList)).map fun i => .invalid i (textAt v.toList i), ?_, ?_⟩
  · rw [List.forall₂_map_right_iff, List.forall₂_same]
    intro i hi
    exact showsInvalid_textAt (mem_invalidPlaces.1 hi)
  · rw [validate_eq_reported]
    simp only [reported, Nat.zero_add]

/-- A bad escape among the digits of another, and two backslashes of which only the first breaks
off. -/
example : validate "\\\\4g\\\\" =
    [.invalid 0 "\\\\4", .invalid 1 "\\4g", .incomplete 4] := by decide +kernel

end LdapFilter.Escape
