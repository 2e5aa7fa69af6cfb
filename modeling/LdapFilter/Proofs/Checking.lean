import LdapFilter.Filter.Check
import LdapFilter.Proofs.Decoding
import LdapFilter.Proofs.ErrorPlaces
import LdapFilter.Proofs.Tiling

/-!
# Checking raw filters in either mode

A raw filter that spells a text is checked as that text (`check_encodeAll`), and one that spells
none by its octets in both modes (`check_of_not_text`); then no parse succeeds, as the lexer cannot
get through it. So the mode matters neither for the verdict nor for where the error is, and `check`
accepts exactly the spellings of filters.
-/

namespace LdapFilter

open Grammar (Filter)

/-! ## Texts in both modes -/

/-- Two answers that succeed, or fail with one code and at one span. -/
def AnswersAgree : Except ParseError Unit → Except ParseError Unit → Prop
  | .ok _, .ok _ => True
  | .error e, .error e' => e.code = e'.code ∧ ∃ span, e.span = .ok span ∧ e'.span = .ok span
  | _, _ => False

/-- Answers about one text that differ in the unit of positions only agree. -/
theorem SameAnswer.agree {text : List Char} {answer answer' : Except ParseError Unit}
    (h : SameAnswer text answer answer') : AnswersAgree answer answer' := by
  cases answer with
  | ok =>
    cases answer' with
    | ok => trivial
    | error => exact h
  | error e =>
    cases answer' with
    | ok => exact h
    | error e' =>
      obtain ⟨-, -, span, -, hspan, -⟩ := h.place
      exact ⟨h.code_eq.symm, span, hspan, h.span_eq.trans hspan⟩

/-- An answer agrees with itself if its error has a span. -/
theorem AnswersAgree.of_eq {answer : Except ParseError Unit}
    (h : ∀ e, answer = .error e → ∃ span, e.span = .ok span) : AnswersAgree answer answer := by
  cases answer with
  | ok => trivial
  | error e =>
    obtain ⟨span, hspan⟩ := h e rfl
    exact ⟨rfl, span, hspan, hspan⟩

theorem AnswersAgree.ok_iff {answer answer' : Except ParseError Unit}
    (h : AnswersAgree answer answer') : answer = .ok () ↔ answer' = .ok () := by
  cases answer with
  | ok =>
    cases answer' with
    | ok => exact Iff.rfl
    | error => exact h.elim
  | error e =>
    cases answer' with
    | ok => exact h.elim
    | error e' => exact ⟨nofun, nofun⟩

/-! ## Raw filters -/

section Raw

variable {bytes : List UInt8}

/-- The octets of a text are checked as the text is parsed. -/
theorem check_encodeAll (text : List Char) (config : Config) :
    check (Utf8.encodeAll text) config = parse (String.ofList text) config := by
  obtain ⟨mode, limit⟩ := config
  cases mode with
  | codePoint => simp only [check, Utf8.decode?_encodeAll]
  | byte => simp only [check, parse, String.toList_ofList]

/-- Octets that spell no text are parsed as they are. -/
theorem check_of_not_text (h : ∀ text, bytes ≠ Utf8.encodeAll text) (config : Config) :
    check bytes config = parseBytes bytes config.limit := by
  have undecoded : Utf8.decode? bytes = none := by
    cases hd : Utf8.decode? bytes with
    | none => rfl
    | some text => exact absurd (Utf8.decode?_eq_some_iff.1 hd) (h text)
  obtain ⟨mode, limit⟩ := config
  cases mode <;> simp only [check, undecoded]

/-- Octets that spell no text are refused. -/
theorem exists_error_of_not_text (h : ∀ text, bytes ≠ Utf8.encodeAll text) (limit : Nat) :
    ∃ e, parseBytes bytes limit = .error e := by
  -- the lexer gets through no such octets, and a parse does not get past where it fails
  have meets := meetsTokens_recognize limit (ByteCursor.ofList bytes)
  cases ht : tokenizeBytes bytes with
  | ok ts =>
    obtain ⟨text, -, htext, -⟩ := exists_text_of_tokenizeBytes ht
    exact absurd htext (h text)
  | error e =>
    obtain he | ⟨e', -, he, -⟩ := meets.of_error e ht
    · exact ⟨_, he⟩
    · exact ⟨e', he⟩

/-- The error of a check has a span. -/
theorem exists_span_of_check {config : Config} {e : ParseError}
    (h : check bytes config = .error e) : ∃ span, e.span = .ok span := by
  by_cases htext : ∃ text, bytes = Utf8.encodeAll text
  · obtain ⟨text, rfl⟩ := htext
    rw [check_encodeAll] at h
    obtain ⟨span, hspan, -⟩ := (liesIn_of_parse h).bounds
    exact ⟨span, hspan⟩
  · rw [check_of_not_text (not_exists.1 htext)] at h
    obtain ⟨span, hspan, -⟩ := (liesIn_of_parseBytes h).bounds
    exact ⟨span, hspan⟩

/-- The answers in both modes agree. -/
theorem answersAgree_check (bytes : List UInt8) (limit : Nat) :
    AnswersAgree (check bytes ⟨.codePoint, limit⟩) (check bytes ⟨.byte, limit⟩) := by
  by_cases htext : ∃ text, bytes = Utf8.encodeAll text
  · obtain ⟨text, rfl⟩ := htext
    rw [check_encodeAll, check_encodeAll]
    exact (recognize_in_step limit (String.ofList text).toList).agree
  · have same : check bytes ⟨.codePoint, limit⟩ = check bytes ⟨.byte, limit⟩ := by
      rw [check_of_not_text (not_exists.1 htext), check_of_not_text (not_exists.1 htext)]
    rw [same]
    exact .of_eq fun e he => exists_span_of_check he

/-- **Checks in either mode.** The mode matters neither for whether a raw filter is accepted nor for
the code and the span of its error, and octets that spell no text are refused in both. -/
theorem check_modes_agree (bytes : List UInt8) (limit : Nat) :
    AnswersAgree (check bytes ⟨.codePoint, limit⟩) (check bytes ⟨.byte, limit⟩) ∧
      ((∀ text : String, text.toUTF8.data.toList ≠ bytes) →
        ∀ mode, ∃ e, check bytes ⟨mode, limit⟩ = .error e) := by
  constructor
  · exact answersAgree_check bytes limit
  · intro h mode
    have not_text (text : List Char) : bytes ≠ Utf8.encodeAll text := by
      rintro rfl
      exact h (String.ofList text) (Utf8.toUTF8_ofList text)
    rw [check_of_not_text not_text]
    exact exists_error_of_not_text not_text limit

/-- A complete filter with half a character behind it. -/
theorem check_modes_agree_unfinished :
    (∀ text : String, text.toUTF8.data.toList ≠ [0x28, 0x61, 0x3D, 0x29, 0xC3]) ∧
      ∃ e, check [0x28, 0x61, 0x3D, 0x29, 0xC3] ⟨.codePoint, 1⟩ = .error e := by
  have not_text (text : String) : text.toUTF8.data.toList ≠ [0x28, 0x61, 0x3D, 0x29, 0xC3] := by
    intro h
    rw [← Utf8.encodeAll_toList] at h
    have decoded := Utf8.decode?_eq_some_iff.2 h.symm
    have undecoded : Utf8.decode? [0x28, 0x61, 0x3D, 0x29, 0xC3] = none := by decide +kernel
    cases undecoded.symm.trans decoded
  exact ⟨not_text, (check_modes_agree _ 1).2 not_text .codePoint⟩

end Raw

end LdapFilter
