import Mathlib
import LdapFilter.Proofs.InStep
import LdapFilter.Proofs.Modes

/-!
# Letter case

A text may be written with its ASCII letters in either case. The lexer gives such texts tokens of
the same kinds at the same places, with texts that differ in case only, and rules cannot tell these
apart: the marker `dn`, the digits of an escape and a leading zero are the places where they look at
more than a kind, and each of them is the same in either case (`Token.SameButCase.alike`). So two
lexers go through the two texts in step, and the answers differ in the texts of tokens at most.
-/

namespace LdapFilter

open CharCursor (behind heads_behind next_behind_nil next_behind_nul next_behind_cons nul_of_error)

/-! ## Letters in either case -/

/-- One character, but for the case of a letter. -/
def SameLetter (ch ch' : Char) : Prop :=
  ch'.toLower = ch.toLower

/-- A letter in its other case, and any other character as it is. -/
def flipCase (ch : Char) : Char :=
  if ch.isUpper then ch.toLower else ch.toUpper

/-- A text of which the letters are in their other case that stand where `flipped` says so. -/
def flipCaseAt (flipped : Nat → Bool) (text : String) : String :=
  String.ofList (text.toList.mapIdx fun i ch => if flipped i then flipCase ch else ch)

theorem sameLetter_flipCase (ch : Char) : SameLetter ch (flipCase ch) := by
  unfold SameLetter flipCase
  split
  · exact Char.toLower_toLower_eq_toLower ch
  · exact Char.toLower_toUpper_eq_toLower ch

theorem sameLetters_flipCaseAt (flipped : Nat → Bool) (text : String) :
    List.Forall₂ SameLetter text.toList (flipCaseAt flipped text).toList := by
  rw [flipCaseAt, String.toList_ofList]
  induction text.toList generalizing flipped with
  | nil => exact .nil
  | cons ch rest ih =>
    rw [List.mapIdx_cons]
    refine .cons ?_ (ih fun i => flipped (i + 1))
    split
    · exact sameLetter_flipCase ch
    · exact rfl

theorem isHexChar_iff_toNat {ch : Char} :
    Token.isHexChar ch ↔ (48 ≤ ch.toNat ∧ ch.toNat ≤ 57) ∨ (97 ≤ ch.toNat ∧ ch.toNat ≤ 102) ∨
      (65 ≤ ch.toNat ∧ ch.toNat ≤ 70) := by
  rw [Token.isHexChar, Bool.or_eq_true, Bool.or_eq_true, Bool.and_eq_true, Bool.and_eq_true,
    Char.isDigit_iff_toNat, or_assoc]
  simp only [decide_eq_true_eq]
  exact Iff.rfl

/-- Lower case leaves a digit of an escape one. -/
theorem isHexChar_toLower (ch : Char) : Token.isHexChar ch.toLower = Token.isHexChar ch := by
  by_cases h : ch.isUpper
  · have range := isUpper_iff_toNat.1 h
    have valid : (ch.toNat + 32).isValidChar := .inl (by omega)
    have lower : ch.toLower.toNat = ch.toNat + 32 := by
      rw [Char.toLower_eq_of_isUpper h, Char.toNat_ofNat, if_pos valid]
    rw [Bool.eq_iff_iff, isHexChar_iff_toNat, isHexChar_iff_toNat, lower]
    omega
  · rw [Char.toLower_eq_of_not_isUpper h]

namespace SameLetter

variable {ch ch' : Char}

theorem toLower_eq (h : SameLetter ch ch') : ch'.toLower = ch.toLower :=
  h

theorem eq_or_isAlpha (h : SameLetter ch ch') : ch' = ch ∨ (ch.isAlpha ∧ ch'.isAlpha) := by
  have alpha : ch'.isAlpha = ch.isAlpha := by
    rw [← Char.isAlpha_toLower_eq_isAlpha, h.toLower_eq, Char.isAlpha_toLower_eq_isAlpha]
  by_cases ha : ch.isAlpha
  · exact .inr ⟨ha, alpha.trans ha⟩
  · have lower {c : Char} (hc : ¬c.isAlpha) : c.toLower = c :=
      Char.toLower_eq_of_not_isUpper fun hu => hc (by rw [Char.isAlpha, hu, Bool.true_or])
    left
    rw [← lower ha, ← h.toLower_eq, lower (alpha ▸ ha)]

theorem ofChar?_eq (h : SameLetter ch ch') : Terminal.ofChar? ch' = Terminal.ofChar? ch := by
  obtain rfl | ⟨ha, ha'⟩ := h.eq_or_isAlpha
  · rfl
  · rw [Terminal.ofChar?_of_isAlpha ha, Terminal.ofChar?_of_isAlpha ha']

theorem utf8Size_eq (h : SameLetter ch ch') : ch'.utf8Size = ch.utf8Size := by
  obtain rfl | ⟨ha, ha'⟩ := h.eq_or_isAlpha
  · rfl
  · rw [utf8Size_of_isAlpha ha, utf8Size_of_isAlpha ha']

theorem isHexChar_eq (h : SameLetter ch ch') : Token.isHexChar ch' = Token.isHexChar ch := by
  rw [← isHexChar_toLower ch', h.toLower_eq, isHexChar_toLower]

/-- A character that is no letter is itself only. -/
theorem eq_iff {other : Char} (h : SameLetter ch ch') (ho : ¬other.isAlpha) :
    ch' = other ↔ ch = other := by
  obtain rfl | ⟨ha, ha'⟩ := h.eq_or_isAlpha
  · exact Iff.rfl
  · constructor
    · rintro rfl
      exact absurd ha' ho
    · rintro rfl
      exact absurd ha ho

/-- Texts take as many octets in either case. -/
theorem length_encodeAll {u v : List Char} (h : List.Forall₂ SameLetter u v) :
    (Utf8.encodeAll v).length = (Utf8.encodeAll u).length := by
  induction h with
  | nil => rfl
  | cons h _ ih =>
    rw [Utf8.encodeAll_cons, Utf8.encodeAll_cons, List.length_append, List.length_append, ih,
      Utf8.length_encode, Utf8.length_encode, h.utf8Size_eq]

end SameLetter

/-! ## Tokens in either case -/

/-- Tokens that differ in the case of their texts only. -/
structure Token.SameButCase (t t' : Token) : Prop where
  kind : t'.kind = t.kind
  position : t'.position = t.position
  span : t'.span = t.span
  text : List.Forall₂ SameLetter t.text.toList t'.text.toList

namespace Token.SameButCase

variable {t t' : Token}

theorem isLetter_eq (h : t.SameButCase t') (letter : Char) :
    t'.isLetter letter = t.isLetter letter := by
  obtain ⟨hk, -, -, ht⟩ := h
  rw [isLetter, isLetter, hk]
  congr 1
  generalize t.text.toList = u at ht
  generalize t'.text.toList = v at ht
  cases ht with
  | nil => rfl
  | cons hch rest =>
    cases rest with
    | nil => simp only [hch.utf8Size_eq, hch.toLower_eq]
    | cons => rfl

theorem isHexDigit_eq (h : t.SameButCase t') : t'.isHexDigit = t.isHexDigit := by
  obtain ⟨hk, -, -, ht⟩ := h
  have digits : t'.text.toList.all isHexChar = t.text.toList.all isHexChar := by
    generalize t.text.toList = u at ht
    generalize t'.text.toList = v at ht
    induction ht with
    | nil => rfl
    | cons hch _ ih => rw [List.all_cons, List.all_cons, hch.isHexChar_eq, ih]
  rw [isHexDigit, isHexDigit, hk, digits]

theorem text_eq_zero_iff (h : t.SameButCase t') : t'.text = "0" ↔ t.text = "0" := by
  obtain ⟨-, -, -, ht⟩ := h
  rw [← String.toList_inj, ← String.toList_inj]
  show t'.text.toList = ['0'] ↔ t.text.toList = ['0']
  generalize t.text.toList = u at ht
  generalize t'.text.toList = v at ht
  cases ht with
  | nil => rfl
  | cons hch rest =>
    rw [List.cons.injEq, List.cons.injEq, hch.eq_iff (by decide)]
    cases rest <;> simp

/-- Rules cannot tell such tokens apart. -/
theorem alike (h : t.SameButCase t') : t.Alike t' :=
  ⟨h.kind, h.isLetter_eq, h.isHexDigit_eq, h.text_eq_zero_iff⟩

end Token.SameButCase

/-! ## Lexers in step -/

/-- Cursors at one place of two texts that differ in case only. -/
inductive CharCursor.SamePlace : CharCursor → CharCursor → Prop where
  | behind {before before' rest rest' : List Char} (passed : List.Forall₂ SameLetter before before')
      (ahead : List.Forall₂ SameLetter rest rest') :
      SamePlace (behind before rest) (behind before' rest')

theorem Token.sameButCase_tokenBehind {before before' : List Char} {ch ch' : Char}
    {kind : Terminal} (passed : List.Forall₂ SameLetter before before') (h : SameLetter ch ch') :
    (CharCursor.tokenBehind before ch kind).SameButCase
      (CharCursor.tokenBehind before' ch' kind) := by
  have next : List.Forall₂ SameLetter (before ++ [ch]) (before' ++ [ch']) :=
    List.rel_append passed (.cons h .nil)
  refine ⟨rfl, passed.length_eq.symm, ?_, ?_⟩
  · simp only [CharCursor.tokenBehind, SameLetter.length_encodeAll passed,
      SameLetter.length_encodeAll next]
  · simpa only [CharCursor.tokenBehind, Char.toString, String.toList_singleton] using
      List.Forall₂.cons h .nil

theorem Token.sameButCase_eof {before before' : List Char}
    (passed : List.Forall₂ SameLetter before before') :
    (Token.eof before.length (Utf8.encodeAll before).length).SameButCase
      (Token.eof before'.length (Utf8.encodeAll before').length) := by
  rw [SameLetter.length_encodeAll passed, ← passed.length_eq]
  exact ⟨rfl, rfl, rfl, List.forall₂_same.2 fun _ _ => rfl⟩

/-- The lexer goes through such texts in step, and finds NUL at the same places. -/
theorem CharCursor.inStep_samePlace :
    InStep Token.SameButCase (· = ·) CharCursor.SamePlace where
  alike := Token.SameButCase.alike
  of_ok {s s' t k} hs h := by
    obtain @⟨before, before', rest, rest', passed, ahead⟩ := hs
    have head : Lookahead.Heads ⟨k, t⟩ (behind before rest) := h
    obtain ⟨rfl, ht⟩ | ⟨ch, tail, kind, rfl, hkind, ht, hk⟩ := heads_behind head
    · cases ahead
      obtain ⟨rfl, rfl⟩ := EStateM.Result.ok.inj (h.symm.trans (next_behind_nil before))
      exact ⟨_, _, next_behind_nil before', Token.sameButCase_eof passed, .behind passed .nil⟩
    · cases ht
      cases hk
      cases ahead with
      | @cons _ ch' _ tail' letter ahead =>
        have kind' : Terminal.ofChar? ch' = some kind := letter.ofChar?_eq.trans hkind
        have next : List.Forall₂ SameLetter (before ++ [ch]) (before' ++ [ch']) :=
          List.rel_append passed (.cons letter .nil)
        exact ⟨_, _, next_behind_cons kind', Token.sameButCase_tokenBehind passed letter,
          .behind next ahead⟩
  of_error {s s' e k} hs h := by
    obtain @⟨before, before', rest, rest', passed, ahead⟩ := hs
    obtain ⟨tail, rfl⟩ := nul_of_error h
    obtain ⟨rfl, rfl⟩ := EStateM.Result.error.inj (h.symm.trans (next_behind_nul before tail))
    cases ahead with
    | @cons _ ch' _ tail' letter ahead =>
      obtain rfl := (letter.eq_iff (by decide)).2 rfl
      refine ⟨_, _, next_behind_nul before' tail', ?_, .behind passed (.cons rfl ahead)⟩
      rw [passed.length_eq, SameLetter.length_encodeAll passed]

/-! ## Answers in either case -/

/-- Errors of one kind at one place, with texts of tokens that differ in case only. -/
inductive ParseError.SameButCase : ParseError → ParseError → Prop where
  | lexical (e : LexError) : SameButCase (.lexical e) (.lexical e)
  | unexpected (construct : Construct) {t t' : Token} (found : t.SameButCase t') :
      SameButCase (.unexpected construct t) (.unexpected construct t')
  | nestingTooDeep (limit position : Nat) (span : Span) :
      SameButCase (.nestingTooDeep limit position span) (.nestingTooDeep limit position span)
  | trailing {t t' : Token} (rest : t.SameButCase t') : SameButCase (.trailing t) (.trailing t')

namespace ParseError.SameButCase

variable {e e' : ParseError}

theorem of_matches (h : e.Matches Token.SameButCase (· = ·) e') : e.SameButCase e' := by
  cases h with
  | lexical h => exact h ▸ .lexical _
  | unexpected construct h => exact .unexpected construct h
  | nestingTooDeep limit h =>
    rw [h.position, h.span]
    exact .nestingTooDeep limit _ _
  | trailing h => exact .trailing h

theorem inOctets (h : e.SameButCase e') : e.inOctets.SameButCase e'.inOctets := by
  have token {t t' : Token} (h : t.SameButCase t') : t.inOctets.SameButCase t'.inOctets :=
    ⟨h.kind, congrArg Span.start h.span, h.span, h.text⟩
  cases h with
  | lexical e => exact .lexical _
  | unexpected construct found => exact .unexpected construct (token found)
  | nestingTooDeep limit position span => exact .nestingTooDeep limit _ span
  | trailing rest => exact .trailing (token rest)

/-- Such errors are told apart by nothing but the texts of their tokens. -/
theorem code_eq (h : e.SameButCase e') : e'.code = e.code := by
  cases h <;> rfl

theorem position_eq (h : e.SameButCase e') : e'.position = e.position := by
  cases h with
  | unexpected construct found => exact found.position
  | trailing rest => exact rest.position
  | lexical | nestingTooDeep => rfl

theorem span_eq (h : e.SameButCase e') : e'.span = e.span := by
  cases h with
  | unexpected construct found => exact congrArg Except.ok found.span
  | trailing rest => exact congrArg Except.ok rest.span
  | lexical | nestingTooDeep => rfl

end ParseError.SameButCase

/-- Two answers of which both are good, or both are errors that differ in the case of texts only. -/
inductive AnswersSameButCase : Except ParseError Unit → Except ParseError Unit → Prop where
  | ok : AnswersSameButCase (.ok ()) (.ok ())
  | error {e e' : ParseError} (h : e.SameButCase e') : AnswersSameButCase (.error e) (.error e')

namespace AnswersSameButCase

variable {answer answer' : Except ParseError Unit}

theorem of_match (h : AnswersMatch Token.SameButCase (· = ·) answer answer') :
    AnswersSameButCase answer answer' := by
  cases h with
  | ok => exact .ok
  | error h => exact .error (.of_matches h)

theorem inOctets (h : AnswersSameButCase answer answer') :
    AnswersSameButCase (answer.mapError ParseError.inOctets)
      (answer'.mapError ParseError.inOctets) := by
  cases h with
  | ok => exact .ok
  | error h => exact .error h.inOctets

end AnswersSameButCase

/-- A text read by its octets gives the answer of its characters, positions counted in octets. -/
theorem parse_byte_eq (text : String) (limit : Nat) :
    parse text ⟨.byte, limit⟩ = (parse text ⟨.codePoint, limit⟩).mapError ParseError.inOctets := by
  have same : SameAnswer text.toList (parse text ⟨.codePoint, limit⟩) (parse text ⟨.byte, limit⟩) :=
    recognize_in_step limit text.toList
  generalize parse text ⟨.codePoint, limit⟩ = answer at same
  generalize parse text ⟨.byte, limit⟩ = answer' at same
  cases answer <;> cases answer'
  · exact congrArg Except.error same.eq_inOctets
  · exact same.elim
  · exact same.elim
  · rfl

/-- **Letter case decides nothing.** However the letters of a text are turned into their other case,
and whatever the text is read by, it is accepted or refused as before, and refused with the same
error but for the case of a text in it. -/
theorem parse_same_but_case (flipped : Nat → Bool) (text : String) (config : Config) :
    AnswersSameButCase (parse text config) (parse (flipCaseAt flipped text) config) := by
  obtain ⟨mode, limit⟩ := config
  have places : CharCursor.SamePlace (behind [] text.toList)
      (behind [] (flipCaseAt flipped text).toList) :=
    .behind .nil (sameLetters_flipCaseAt flipped text)
  have same := AnswersSameButCase.of_match (CharCursor.inStep_samePlace.answers places limit)
  cases mode with
  | codePoint => exact same
  | byte =>
    rw [parse_byte_eq, parse_byte_eq]
    exact same.inOctets

/-- The marker of an extensible match in the other case. -/
example : flipCaseAt (fun i => i = 3) "(a:dN:=b)" = "(a:DN:=b)" ∧
    parse "(a:DN:=b)" = parse "(a:dN:=b)" := by
  decide +kernel

end LdapFilter
