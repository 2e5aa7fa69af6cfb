import LdapFilter.Proofs.ByteTokens
import LdapFilter.Proofs.EscapeKinds

/-!
# The spans of bad escapes

The diagnostic of a bad escape is about the characters from its backslash on: those that its text
shows, or all that are left of a value that ends too early (`exists_escape_of_mem`). So its bounds
are in order, lie between characters of the value, and enclose just the octets of these characters
(`EscapeError.PointsAt`), and no error is without a diagnostic.
-/

namespace LdapFilter

open Utf8 (encode encodeAll)

/-! ## The octets of a span -/

/-- The octets of a text that a span covers. -/
def Span.octetsIn (s : Span) (text : String) : List UInt8 :=
  text.toUTF8.data.toList.extract s.start s.stop

/-- The octets between two places in a text are those of the characters between them. -/
theorem Span.octetsIn_of_toList {text : String} {before piece after : List Char}
    (h : text.toList = before ++ piece ++ after) :
    Span.octetsIn ⟨(encodeAll before).length, (encodeAll (before ++ piece)).length⟩ text =
      encodeAll piece := by
  rw [octetsIn, Utf8.toUTF8_of_toList h, Utf8.encodeAll_append, List.append_assoc,
    List.length_append]
  exact extract_append _ _ _

/-! ## What an error is about -/

namespace EscapeError

/-- The error is about the characters `escape` of a value, behind which `after` is left. -/
def IsAbout (escape after : List Char) : EscapeError → Prop
  | invalid _ text => text = String.ofList escape
  | incomplete _ => after = []

/-- A span of the value `v` is that of the error `e`: it begins at the backslash and covers the text
of an invalid escape, or all that is left where an escape breaks off. -/
structure PointsAt (v : String) (e : EscapeError) (span : Span) : Prop where
  start_eq : span.start = e.offset
  start_lt : span.start < span.stop
  stop_le : span.stop ≤ v.utf8ByteSize
  start_valid : String.Pos.Raw.IsValid v ⟨span.start⟩
  stop_valid : String.Pos.Raw.IsValid v ⟨span.stop⟩
  backslash : v.toUTF8.data.toList[span.start]? = some Escape.backslash
  invalid : ∀ offset text, e = .invalid offset text → span.octetsIn v = text.toUTF8.data.toList
  incomplete : ∀ offset, e = .incomplete offset →
    span.octetsIn v = v.toUTF8.data.toList.drop e.offset

section Places

variable {v : String} {before escape after : List Char} {e : EscapeError}
  (hv : v.toList = before ++ '\\' :: escape ++ after) (offset : e.offset = (encodeAll before).length)
  (about : e.IsAbout ('\\' :: escape) after)

include hv offset about

/-- The span of an error covers the characters that it is about. -/
theorem span_of_isAbout : e.span v =
    .ok ⟨(encodeAll before).length, (encodeAll (before ++ '\\' :: escape)).length⟩ := by
  have ordered : (encodeAll before).length ≤ (encodeAll (before ++ '\\' :: escape)).length := by
    simp
  cases e with
  | invalid i text =>
    obtain rfl : i = (encodeAll before).length := offset
    obtain rfl : text = String.ofList ('\\' :: escape) := about
    have stop : (encodeAll before).length + (String.ofList ('\\' :: escape)).utf8ByteSize =
        (encodeAll (before ++ '\\' :: escape)).length := by
      rw [← Utf8.length_encodeAll_toList, String.toList_ofList, Utf8.encodeAll_append,
        List.length_append]
    rw [span, stop]
    exact Span.ofBounds?_eq_ok_iff.2 ⟨ordered, rfl⟩
  | incomplete i =>
    obtain rfl : i = (encodeAll before).length := offset
    obtain rfl : after = [] := about
    have stop : v.utf8ByteSize = (encodeAll (before ++ '\\' :: escape)).length := by
      rw [← Utf8.length_encodeAll_toList, hv, List.append_nil]
    rw [span, stop]
    exact Span.ofBounds?_eq_ok_iff.2 ⟨ordered, rfl⟩

/-- That span points at the escape. -/
theorem pointsAt_of_isAbout : e.PointsAt v
    ⟨(encodeAll before).length, (encodeAll (before ++ '\\' :: escape)).length⟩ := by
  have covered := Span.octetsIn_of_toList hv
  have octets := Utf8.toUTF8_of_toList (hv.trans (List.append_assoc _ _ _))
  constructor
  · exact offset.symm
  · have one : (encode '\\').length = 1 := rfl
    simp only [Utf8.encodeAll_append, Utf8.encodeAll_cons, List.length_append]
    omega
  · rw [← Utf8.length_encodeAll_toList, hv, Utf8.encodeAll_append (before ++ _),
      List.length_append]
    exact Nat.le_add_right _ _
  · exact Utf8.isValid_of_toList (hv.trans (List.append_assoc _ _ _))
  · exact Utf8.isValid_of_toList hv
  · rw [octets, List.getElem?_append_right (Nat.le_refl _), Nat.sub_self]
    rfl
  · rintro i text rfl
    obtain rfl : text = String.ofList ('\\' :: escape) := about
    rw [covered, Utf8.toUTF8_ofList]
  · rintro i rfl
    obtain rfl : after = [] := about
    rw [covered, offset, octets, List.drop_left, List.append_nil]

end Places

/-- An error with a span has a diagnostic about that span. -/
theorem exists_diagnostic {v : String} {e : EscapeError} {span : Span} (h : e.span v = .ok span) :
    ∃ d, e.diagnostic v = .ok d ∧ d.span = some span := by
  unfold diagnostic
  rw [h]
  exact ⟨_, rfl, rfl⟩

end EscapeError

namespace Escape

/-- An error is about characters of the value, of which the first is the backslash at its place. -/
theorem exists_escape_of_mem {v : String} {e : EscapeError} (h : e ∈ validate v) :
    ∃ before escape after, v.toList = before ++ '\\' :: escape ++ after ∧
      e.offset = (encodeAll before).length ∧ e.IsAbout ('\\' :: escape) after := by
  cases e with
  | invalid i text =>
    obtain ⟨before, rest, hv, hi, htext, -⟩ := exists_split_of_invalid h
    refine ⟨before, rest.take 2, rest.drop 2, ?_, hi.symm, htext⟩
    rw [hv, List.append_assoc, List.cons_append, List.take_append_drop]
  | incomplete i =>
    have cut : IsCutAt (encodeAll v.toList) i :=
      (firstCut?_eq_some_iff.1 (mem_validate_incomplete_iff.1 h)).1
    obtain ⟨before, rest, hv, hi⟩ := exists_split_of_backslash cut.1
    refine ⟨before, rest, [], ?_, hi.symm, rfl⟩
    rw [hv, List.append_nil]

/-- **Diagnostics of bad escapes.** Every error that validation or decoding reports has a
diagnostic, whose span points at the escape: its bounds lie between characters of the value, and
between them are the octets of the text of an invalid escape, or the rest of the value where an
escape breaks off. -/
theorem diagnostics_point_at_escapes {v : String} {errors : List EscapeError}
    (found : Finds v errors) {e : EscapeError} (he : e ∈ errors) :
    ∃ d span, e.diagnostic v = .ok d ∧ d.span = some span ∧ e.PointsAt v span := by
  rw [found.eq] at he
  obtain ⟨before, escape, after, hv, offset, about⟩ := exists_escape_of_mem he
  obtain ⟨d, hd, hspan⟩ :=
    EscapeError.exists_diagnostic (EscapeError.span_of_isAbout hv offset about)
  exact ⟨d, _, hd, hspan, EscapeError.pointsAt_of_isAbout hv offset about⟩

/-- An invalid escape between characters of several octets, and one that breaks off. -/
theorem diagnostics_point_at_escapes_wide :
    decode "é\\€x\\4" = .error [.invalid 2 "\\€x", .incomplete 7] ∧
      (∃ d span, EscapeError.diagnostic "é\\€x\\4" (.invalid 2 "\\€x") = .ok d ∧
        d.span = some span ∧ EscapeError.PointsAt "é\\€x\\4" (.invalid 2 "\\€x") span) ∧
      ∃ d span, EscapeError.diagnostic "é\\€x\\4" (.incomplete 7) = .ok d ∧
        d.span = some span ∧ EscapeError.PointsAt "é\\€x\\4" (.incomplete 7) span := by
  have refused : decode "é\\€x\\4" = .error [.invalid 2 "\\€x", .incomplete 7] := by
    decide +kernel
  refine ⟨refused, ?_, ?_⟩
  · exact diagnostics_point_at_escapes (.inr refused) (by simp)
  · exact diagnostics_point_at_escapes (.inr refused) (by simp)

end Escape

end LdapFilter
