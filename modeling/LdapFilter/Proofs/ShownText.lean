import LdapFilter.Proofs.Checking

/-!
# Errors and the text that is shown

A raw filter that spells no text is shown with replacement characters, which have other octets than
those in their place. The span of an error counts the octets of the raw filter all the same, and its
start fits the shown text, too: what lies before it has been read, so it spells a text
(`exists_text_before_error`), and octets that spell a text are shown as they are
(`Span.LinesUp.of_text`).
-/

namespace LdapFilter

open Utf8 (encodeAll decodeLossy)

/-- Up to the start of the span, which lies between characters of `shown`, the octets of `shown` are
those of the raw filter. -/
structure Span.LinesUp (span : Span) (bytes : List UInt8) (shown : String) : Prop where
  start_le_raw : span.start ≤ bytes.length
  start_le : span.start ≤ shown.utf8ByteSize
  start_valid : String.Pos.Raw.IsValid shown ⟨span.start⟩
  take_eq : shown.toUTF8.data.toList.take span.start = bytes.take span.start

variable {bytes : List UInt8} {config : Config} {e : ParseError}

/-- What comes before the span of an error spells a text. -/
theorem exists_text_before_error (h : check bytes config = .error e) :
    ∃ text rest span, bytes = encodeAll text ++ rest ∧ e.span = .ok span ∧
      span.start = (encodeAll text).length := by
  by_cases htext : ∃ text, bytes = encodeAll text
  · obtain ⟨text, rfl⟩ := htext
    rw [check_encodeAll] at h
    obtain ⟨before, found, after, split, about⟩ := (liesIn_of_parse h).piece
    rw [String.toList_ofList] at split
    refine ⟨before, encodeAll (found ++ after), _, ?_, about.span, rfl⟩
    rw [split, List.append_assoc, Utf8.encodeAll_append]
  · rw [check_of_not_text (not_exists.1 htext)] at h
    obtain ⟨before, found, after, text, rfl, about, spelled⟩ :=
      ByteCursor.accounts_raw.exists_piece_of_recognize Measure.additive_raw h
    have spelled : before = encodeAll text := spelled
    refine ⟨text, found ++ after, _, ?_, about.span, ?_⟩
    · rw [spelled, List.append_assoc]
    · exact congrArg List.length spelled

/-- A span behind octets that spell a text lines up with what is shown. -/
theorem Span.LinesUp.of_text {span : Span} {text : List Char} {rest : List UInt8}
    (h : span.start = (encodeAll text).length) :
    span.LinesUp (encodeAll text ++ rest) (String.ofList (decodeLossy (encodeAll text ++ rest))) := by
  have shown : (String.ofList (decodeLossy (encodeAll text ++ rest))).toList =
      text ++ decodeLossy rest := by
    rw [String.toList_ofList, Utf8.decodeLossy_encodeAll_append]
  constructor
  · rw [h, List.length_append]
    exact Nat.le_add_right _ _
  · rw [h, ← Utf8.length_encodeAll_toList, shown, Utf8.encodeAll_append, List.length_append]
    exact Nat.le_add_right _ _
  · rw [h]
    exact Utf8.isValid_of_toList shown
  · rw [h, ← Utf8.encodeAll_toList, shown, Utf8.encodeAll_append, List.take_left, List.take_left]

/-- **Errors line up with the shown text.** The error of a raw filter has a span whose start is a
place between characters of the text that is shown for it, and in front of which the shown text has
the octets of the raw filter. -/
theorem errors_line_up (input : FilterInput) (h : check input.filter config = .error e) :
    ∃ span, e.span = .ok span ∧ span.LinesUp input.filter input.text := by
  obtain ⟨text, rest, span, hbytes, hspan, start⟩ := exists_text_before_error h
  refine ⟨span, hspan, ?_⟩
  unfold FilterInput.text
  rw [hbytes]
  exact .of_text start

/-- A letter of two octets, and then half a letter, which is shown with three octets. -/
theorem errors_line_up_replaced :
    check [0x28, 0x61, 0x3D, 0xC3, 0xBC, 0xC3, 0x29] ⟨.codePoint, 1⟩ =
        .error (.lexical (.malformedSequence 0xC3 5 2 6)) ∧
      FilterInput.text ⟨"f", [0x28, 0x61, 0x3D, 0xC3, 0xBC, 0xC3, 0x29]⟩ = "(a=ü\uFFFD)" ∧
      Span.LinesUp ⟨5, 6⟩ [0x28, 0x61, 0x3D, 0xC3, 0xBC, 0xC3, 0x29] "(a=ü\uFFFD)" := by
  have refused : check [0x28, 0x61, 0x3D, 0xC3, 0xBC, 0xC3, 0x29] ⟨.codePoint, 1⟩ =
      .error (.lexical (.malformedSequence 0xC3 5 2 6)) := by decide +kernel
  have shown : FilterInput.text ⟨"f", [0x28, 0x61, 0x3D, 0xC3, 0xBC, 0xC3, 0x29]⟩ =
      "(a=ü\uFFFD)" := by decide +kernel
  obtain ⟨span, hspan, up⟩ :=
    errors_line_up ⟨"f", [0x28, 0x61, 0x3D, 0xC3, 0xBC, 0xC3, 0x29]⟩ refused
  obtain rfl : span = ⟨5, 6⟩ := Except.ok.inj hspan.symm
  rw [shown] at up
  exact ⟨refused, shown, up⟩

end LdapFilter
