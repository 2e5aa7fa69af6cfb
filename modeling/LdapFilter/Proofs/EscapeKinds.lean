import LdapFilter.Proofs.EscapePlaces

/-!
# Invalid escapes and escapes that break off

A backslash with too little behind it breaks off, and one with enough behind it that is not two
digits is invalid. What is enough is counted in octets, two of them (`isInvalidAt_append_iff`,
`isCutAt_append_iff`), but the text of an invalid escape is to show the two characters behind the
backslash. The two counts disagree in one case: before a last character of several octets a
backslash does not break off, and its text has two characters instead of three.
-/

namespace LdapFilter.Escape

open Utf8 (encode encodeAll)

variable {bytes : List UInt8} {i : Nat}

/-! ## What is among the errors -/

theorem mem_validate_invalid_iff {v : String} {text : String} :
    .invalid i text ∈ validate v ↔
      IsInvalidAt (encodeAll v.toList) i ∧ text = textAt v.toList i := by
  simp [validate_eq_reported, reported, mem_invalidPlaces, eq_comm]

theorem mem_validate_incomplete_iff {v : String} :
    .incomplete i ∈ validate v ↔ firstCut? (encodeAll v.toList) = some i := by
  simp [validate_eq_reported, reported]

/-! ## Octets and characters behind a backslash -/

theorem isInvalidAt_append (s : List UInt8) :
    IsInvalidAt (s ++ bytes) s.length ↔ IsInvalidAt bytes 0 := by
  induction s with
  | nil => rfl
  | cons b s ih => rw [List.cons_append, List.length_cons, isInvalidAt_cons_succ, ih]

theorem isCutAt_append (s : List UInt8) : IsCutAt (s ++ bytes) s.length ↔ IsCutAt bytes 0 := by
  induction s with
  | nil => rfl
  | cons b s ih => rw [List.cons_append, List.length_cons, isCutAt_cons_succ, ih]

/-- An escape breaks off if fewer than two octets come after its backslash. -/
theorem isCutAt_append_iff {before rest : List Char} :
    IsCutAt (encodeAll (before ++ '\\' :: rest)) (encodeAll before).length ↔
      (encodeAll rest).length < 2 := by
  have octets : encodeAll ('\\' :: rest) = backslash :: encodeAll rest := rfl
  rw [Utf8.encodeAll_append, isCutAt_append, octets, isCutAt_zero_iff]

/-- An escape is invalid if at least two octets come after its backslash, and not two digits. -/
theorem isInvalidAt_append_iff {before rest : List Char} :
    IsInvalidAt (encodeAll (before ++ '\\' :: rest)) (encodeAll before).length ↔
      2 ≤ (encodeAll rest).length ∧ ¬BeginsWithDigits rest := by
  have octets : encodeAll ('\\' :: rest) = backslash :: encodeAll rest := rfl
  rw [Utf8.encodeAll_append, isInvalidAt_append, octets]
  match hrest : encodeAll rest with
  | [] | [_] => simp [IsInvalidAt]
  | high :: low :: t =>
    rw [isInvalidAt_zero_iff, octet?_eq_none_iff, isHexOctet_and_iff hrest]
    simp

/-- A text is one character of several octets. -/
def IsWide (s : List Char) : Prop :=
  ∃ ch, s = [ch] ∧ 2 ≤ ch.utf8Size

/-- Fewer than two characters have two octets only in one way. -/
theorem two_le_length_encodeAll_iff {s : List Char} (few : s.length < 2) :
    2 ≤ (encodeAll s).length ↔ IsWide s := by
  match s with
  | [] => simp [IsWide]
  | [ch] => simp [IsWide, Utf8.length_encode]
  | _ :: _ :: _ =>
    simp only [List.length_cons] at few
    omega

theorem not_beginsWithDigits {s : List Char} (few : s.length < 2) : ¬BeginsWithDigits s := by
  rintro ⟨high, low, rest, rfl, -⟩
  simp only [List.length_cons] at few
  omega

/-- An invalid escape shows its backslash and the two characters after it, or the one after it if
that is the last and has several octets. -/
theorem exists_split_of_invalid {v text : String} (h : .invalid i text ∈ validate v) :
    ∃ before rest, v.toList = before ++ '\\' :: rest ∧ (encodeAll before).length = i ∧
      text = String.ofList ('\\' :: rest.take 2) ∧ (2 ≤ rest.length ∨ IsWide rest) := by
  obtain ⟨invalid, rfl⟩ := mem_validate_invalid_iff.1 h
  obtain ⟨before, rest, hv, rfl⟩ := exists_split_of_backslash invalid.1
  rw [hv] at invalid
  refine ⟨before, rest, hv, rfl, by rw [hv, textAt_append]; rfl, ?_⟩
  by_cases few : rest.length < 2
  · exact .inr ((two_le_length_encodeAll_iff few).1 (isInvalidAt_append_iff.1 invalid).1)
  · exact .inl (Nat.not_lt.1 few)

/-! ## Fewer than two characters behind a backslash -/

section Few

variable {v : String} {before rest : List Char} (hv : v.toList = before ++ '\\' :: rest)
  (few : rest.length < 2)

include hv few

/-- A backslash with fewer than two characters after it is an invalid escape if these have two
octets. -/
theorem mem_validate_invalid_of_few {text : String} :
    .invalid (encodeAll before).length text ∈ validate v ↔
      IsWide rest ∧ text = String.ofList ('\\' :: rest) := by
  have shown : ('\\' :: rest).take 3 = '\\' :: rest :=
    List.take_of_length_le (by simp only [List.length_cons]; omega)
  rw [mem_validate_invalid_iff, hv, isInvalidAt_append_iff, textAt_append, shown,
    two_le_length_encodeAll_iff few, and_iff_left (not_beginsWithDigits few)]

/-- If they have not, that escape breaks off, or the one of the backslash right before it does. -/
theorem mem_validate_incomplete_of_few (narrow : ¬IsWide rest) :
    .incomplete (encodeAll before).length ∈ validate v ∨
      ∃ first, before = first ++ ['\\'] ∧ rest = [] ∧
        .incomplete (encodeAll first).length ∈ validate v := by
  have cut : IsCutAt (encodeAll v.toList) (encodeAll before).length := by
    have short := mt (two_le_length_encodeAll_iff few).1 narrow
    rw [hv, isCutAt_append_iff]
    omega
  obtain ⟨j, hle, hj⟩ := cut.exists_first
  have first_cut : IsCutAt (encodeAll v.toList) j := (firstCut?_eq_some_iff.1 hj).1
  rw [← mem_validate_incomplete_iff] at hj
  obtain ⟨first, tail, htail, rfl⟩ := exists_split_of_backslash first_cut.1
  rw [htail, isCutAt_append_iff] at first_cut
  obtain ⟨middle, hbefore, hmiddle⟩ | ⟨middle, hfirst, -⟩ :=
    List.append_eq_append_iff.1 (htail.symm.trans hv)
  · cases middle with
    | nil =>
      rw [List.append_nil] at hbefore
      exact .inl (hbefore ▸ hj)
    | cons ch middle =>
      -- between the two backslashes and behind them there are no octets
      rw [List.cons_append] at hmiddle
      obtain ⟨rfl, rfl⟩ := List.cons.inj hmiddle
      simp only [Utf8.encodeAll_append, Utf8.encodeAll_cons, List.length_append] at first_cut
      have one : (encode '\\').length = 1 := rfl
      have hrest : rest = [] := Utf8.eq_nil_of_length_encodeAll (by omega)
      have hnone : middle = [] := Utf8.eq_nil_of_length_encodeAll (by omega)
      exact .inr ⟨first, by rw [hbefore, hnone], hrest, hj⟩
  · rw [hfirst, Utf8.encodeAll_append, List.length_append] at hle
    have hnone : middle = [] := Utf8.eq_nil_of_length_encodeAll (by omega)
    rw [hnone, List.append_nil] at hfirst
    exact .inl (hfirst ▸ hj)

end Few

/-- `errors` are the errors that validation finds in `v`, or those that decoding refuses it for. -/
def Finds (v : String) (errors : List EscapeError) : Prop :=
  errors = validate v ∨ decode v = .error errors

theorem Finds.eq {v : String} {errors : List EscapeError} (h : Finds v errors) :
    errors = validate v :=
  h.elim id fun h => (decode_eq_error_iff.1 h).1

/-- **Invalid escapes and those that break off.** What comes after a backslash is counted in
octets. An invalid escape shows its backslash and the two characters after it, or only the one
after it if that is the last and has several octets. A backslash with fewer than two characters
after it is an invalid escape in just that case; else it breaks off, unless the value ends with two
backslashes and the one before it is the first to break off. -/
theorem escapes_told_apart_by_octets {v : String} {errors : List EscapeError}
    (found : Finds v errors) :
    (∀ offset text, .invalid offset text ∈ errors →
      ∃ before rest, v.toList = before ++ '\\' :: rest ∧ (encodeAll before).length = offset ∧
        text = String.ofList ('\\' :: rest.take 2) ∧ (2 ≤ rest.length ∨ IsWide rest)) ∧
    ∀ before rest, v.toList = before ++ '\\' :: rest → rest.length < 2 →
      (∀ text, .invalid (encodeAll before).length text ∈ errors ↔
        IsWide rest ∧ text = String.ofList ('\\' :: rest)) ∧
      (¬IsWide rest → .incomplete (encodeAll before).length ∈ errors ∨
        ∃ first, before = first ++ ['\\'] ∧ rest = [] ∧
          .incomplete (encodeAll first).length ∈ errors) := by
  rw [found.eq]
  refine ⟨fun offset text h => exists_split_of_invalid h, fun before rest hv few => ⟨?_, ?_⟩⟩
  · exact fun text => mem_validate_invalid_of_few hv few
  · exact mem_validate_incomplete_of_few hv few

/-- Two invalid escapes, and a last letter of two octets in the second of them. -/
theorem escapes_told_apart_by_octets_last :
    Finds "\\g\\é" [.invalid 0 "\\g\\", .invalid 2 "\\é"] ∧ IsWide ['é'] ∧
      ∃ before rest, "\\g\\é".toList = before ++ '\\' :: rest ∧ (encodeAll before).length = 2 ∧
        "\\é" = String.ofList ('\\' :: rest.take 2) ∧ (2 ≤ rest.length ∨ IsWide rest) := by
  have found : Finds "\\g\\é" [.invalid 0 "\\g\\", .invalid 2 "\\é"] := .inl (by decide +kernel)
  obtain ⟨shown, behind⟩ := escapes_told_apart_by_octets found
  obtain ⟨invalid, -⟩ := behind ['\\', 'g'] ['é'] (by decide) (by decide)
  exact ⟨found, ((invalid "\\é").1 (by decide +kernel)).1, shown 2 "\\é" (by simp)⟩

/-- An invalid escape need not show three characters, and a backslash with one character after it
need not break off. -/
theorem not_three_characters_of_invalid :
    (¬∀ v errors, Finds v errors → ∀ offset text, .invalid offset text ∈ errors →
      text.length = 3) ∧
    ¬∀ v errors before rest, Finds v errors → v.toList = before ++ '\\' :: rest →
      rest.length < 2 → ∀ text, .invalid (encodeAll before).length text ∉ errors := by
  have found : Finds "\\é" [.invalid 0 "\\é"] := .inl (by decide +kernel)
  constructor
  · intro h
    exact absurd (h _ _ found 0 "\\é" (by simp)) (by decide)
  · intro h
    exact h _ _ [] ['é'] found (by decide) (by decide) "\\é" (by simp)

end LdapFilter.Escape
