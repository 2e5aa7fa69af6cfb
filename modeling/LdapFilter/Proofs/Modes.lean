import LdapFilter.Proofs.ByteReading
import LdapFilter.Proofs.InStep

/-!
# Reading by characters and by octets

The two ways to read a text give the same answer but for the unit of positions. The lexers go
through the text in step (`Coupled.inStep`): at each place they give alike tokens, or both find NUL.
As rules look at nothing but what alike tokens share, a run over the octets comes to the verdict of
the run over the characters, and at the same place.
-/

namespace LdapFilter

/-! ## Positions in octets -/

/-- The token with its position counted in octets. -/
def Token.inOctets (t : Token) : Token :=
  { t with position := t.span.start }

/-- The error with its position counted in octets. -/
def LexError.inOctets : LexError → LexError
  | invalidCharacter ch _ offset => .invalidCharacter ch offset offset
  | e => e

/-- The error with its position counted in octets. -/
def ParseError.inOctets : ParseError → ParseError
  | lexical e => .lexical e.inOctets
  | unexpected expected found => .unexpected expected found.inOctets
  | nestingTooDeep limit _ span => .nestingTooDeep limit span.start span
  | trailing rest => .trailing rest.inOctets

theorem Token.alike_inOctets (t : Token) : t.Alike t.inOctets :=
  alike_of_eq rfl rfl

/-! ## Octets of a text -/

/-- The cursor over the octets of a text behind `before`, in front of `rest`. -/
def ByteCursor.behind (before rest : List Char) : ByteCursor :=
  ⟨Utf8.encodeAll rest, (Utf8.encodeAll before).length⟩

namespace ByteCursor

theorem next_behind_nil (before : List Char) :
    TokenSource.next (behind before []) =
      .ok (.eof (Utf8.encodeAll before).length (Utf8.encodeAll before).length) (behind before []) :=
  rfl

theorem next_behind_nul (before rest : List Char) :
    TokenSource.next (behind before ('\x00' :: rest)) =
      .error (.invalidCharacter '\x00' (Utf8.encodeAll before).length
        (Utf8.encodeAll before).length) (behind before ('\x00' :: rest)) :=
  rfl

theorem next_behind_cons {before rest : List Char} {ch : Char} {kind : Terminal}
    (h : Terminal.ofChar? ch = some kind) :
    TokenSource.next (behind before (ch :: rest)) =
      .ok (CharCursor.tokenBehind before ch kind).inOctets (behind (before ++ [ch]) rest) := by
  have step := next_encode h (Utf8.encodeAll rest) (Utf8.encodeAll before).length
  have total : (Utf8.encodeAll (before ++ [ch])).length =
      (Utf8.encodeAll before).length + (Utf8.encode ch).length := by simp
  simp only [behind, Token.inOctets, CharCursor.tokenBehind, total]
  exact step

end ByteCursor

/-! ## One call -/

namespace TokenSource

variable {σ : Type} [TokenSource σ]

/-- The outcome of a call for a token, and the source as the call leaves it. -/
def call (s : σ) : Except LexError Token × σ :=
  match next s with
  | .ok t s' => (.ok t, s')
  | .error e s' => (.error e, s')

theorem call_of_ok {s s' : σ} {t : Token} (h : next s = .ok t s') : call s = (.ok t, s') := by
  simp only [call, h]

theorem call_of_error {s s' : σ} {e : LexError} (h : next s = .error e s') :
    call s = (.error e, s') := by
  simp only [call, h]

end TokenSource

/-- So many characters of a text have so many octets. -/
def IsPlace (text : List Char) (position offset : Nat) : Prop :=
  ∃ before rest, text = before ++ rest ∧ position = before.length ∧
    offset = (Utf8.encodeAll before).length

/-- The outcomes of two calls that differ in the unit of positions only: a token with its position
in characters and in octets, or NUL. -/
inductive SameCall (text : List Char) : (outcome outcome' : Except LexError Token) → Prop where
  | token {t : Token} (place : IsPlace text t.position t.span.start) :
      SameCall text (.ok t) (.ok t.inOctets)
  | refused {ch : Char} {position offset : Nat} (place : IsPlace text position offset) :
      SameCall text (.error (.invalidCharacter ch position offset))
        (.error (.invalidCharacter ch offset offset))

/-- The two cursors stand at one place of the text. -/
inductive Coupled (text : List Char) : CharCursor → ByteCursor → Prop where
  | mk (before rest : List Char) (split : text = before ++ rest) :
      Coupled text (CharCursor.behind before rest) (ByteCursor.behind before rest)

open TokenSource (call call_of_ok call_of_error)

variable {text : List Char} {c : CharCursor} {b : ByteCursor}

/-- One call gives alike outcomes and leaves the cursors at one place. -/
theorem Coupled.call (h : Coupled text c b) :
    SameCall text (call c).1 (call b).1 ∧ Coupled text (call c).2 (call b).2 := by
  cases h with
  | mk before rest split =>
    have place : IsPlace text before.length (Utf8.encodeAll before).length :=
      ⟨before, rest, split, rfl, rfl⟩
    cases rest with
    | nil =>
      rw [call_of_ok (CharCursor.next_behind_nil before),
        call_of_ok (ByteCursor.next_behind_nil before)]
      exact ⟨.token (t := .eof before.length (Utf8.encodeAll before).length) place,
        .mk before [] split⟩
    | cons ch tail =>
      cases hk : Terminal.ofChar? ch with
      | none =>
        cases Terminal.ofChar?_eq_none_iff.1 hk
        rw [call_of_error (CharCursor.next_behind_nul before tail),
          call_of_error (ByteCursor.next_behind_nul before tail)]
        exact ⟨.refused place, .mk before _ split⟩
      | some kind =>
        rw [call_of_ok (CharCursor.next_behind_cons hk), call_of_ok (ByteCursor.next_behind_cons hk)]
        exact ⟨.token (t := CharCursor.tokenBehind before ch kind) place,
          .mk (before ++ [ch]) tail (by simpa using split)⟩

/-- The lexers go through a text in step. -/
theorem Coupled.inStep (text : List Char) :
    InStep (fun t t' => SameCall text (.ok t) (.ok t'))
      (fun e e' => SameCall text (.error e) (.error e')) (Coupled text) where
  alike h := by
    cases h with
    | token => exact Token.alike_inOctets _
  of_ok {c b t k} coupled h := by
    obtain ⟨same, coupled⟩ := coupled.call
    rw [call_of_ok h] at same coupled
    cases hb : TokenSource.next b with
    | ok t' k' =>
      rw [call_of_ok hb] at same coupled
      exact ⟨t', k', rfl, same, coupled⟩
    | error e k' =>
      rw [call_of_error hb] at same
      cases same
  of_error {c b e k} coupled h := by
    obtain ⟨same, coupled⟩ := coupled.call
    rw [call_of_error h] at same coupled
    cases hb : TokenSource.next b with
    | ok t k' =>
      rw [call_of_ok hb] at same
      cases same
    | error e' k' =>
      rw [call_of_error hb] at same coupled
      exact ⟨e', k', rfl, same, coupled⟩

/-! ## Answers in step -/

/-- Two errors about one text that differ in the unit of positions only. -/
structure ParseError.SameInOctets (text : List Char) (e e' : ParseError) : Prop where
  eq_inOctets : e' = e.inOctets
  code_eq : e'.code = e.code
  span_eq : e'.span = e.span
  /-- The one position counts the characters before the span, the other the octets. -/
  place : ∃ before rest span, text = before ++ rest ∧ e.span = .ok span ∧
    span.start = (Utf8.encodeAll before).length ∧ e.position = before.length ∧
    e'.position = span.start

/-- Two answers about one text that differ in the unit of positions only. -/
def SameAnswer (text : List Char) : Except ParseError Unit → Except ParseError Unit → Prop
  | .ok _, .ok _ => True
  | .error e, .error e' => e.SameInOctets text e'
  | _, _ => False

/-- Errors of the two lexers, and at tokens that they give, differ in the unit of positions only. -/
theorem ParseError.sameInOctets_of_matches {e e' : ParseError}
    (h : e.Matches (fun t t' => SameCall text (.ok t) (.ok t'))
      (fun e e' => SameCall text (.error e) (.error e')) e') : e.SameInOctets text e' := by
  cases h with
  | lexical h =>
    cases h with
    | @refused ch position offset place =>
      obtain ⟨before, rest, split, hp, ho⟩ := place
      have span : (LexError.invalidCharacter ch position offset).span =
          .ok ⟨offset, offset + ch.utf8Size⟩ :=
        Span.ofBounds?_eq_ok_iff.2 ⟨Nat.le_add_right _ _, rfl⟩
      exact ⟨rfl, rfl, rfl, before, rest, _, split, span, ho, hp, rfl⟩
  | unexpected construct h =>
    obtain ⟨before, rest, split, position, offset⟩ := h
    exact ⟨rfl, rfl, rfl, before, rest, _, split, rfl, offset, position, rfl⟩
  | nestingTooDeep limit h =>
    obtain ⟨before, rest, split, position, offset⟩ := h
    exact ⟨rfl, rfl, rfl, before, rest, _, split, rfl, offset, position, rfl⟩
  | trailing h =>
    obtain ⟨before, rest, split, position, offset⟩ := h
    exact ⟨rfl, rfl, rfl, before, rest, _, split, rfl, offset, position, rfl⟩

/-- The recognizer gives the same answer over the characters and over the octets of a text. -/
theorem recognize_in_step (limit : Nat) (text : List Char) :
    SameAnswer text (outcome (recognize limit (CharCursor.behind [] text)))
      (outcome (recognize limit (ByteCursor.behind [] text))) := by
  have answers := (Coupled.inStep text).answers (.mk [] text rfl) limit
  generalize outcome (recognize limit (CharCursor.behind [] text)) = answer at answers
  generalize outcome (recognize limit (ByteCursor.behind [] text)) = answer' at answers
  cases answers with
  | ok => trivial
  | error h => exact ParseError.sameInOctets_of_matches h

/-- **Two ways to read.** A text is read with the same answer by its characters and by its octets,
positions apart; and the octets may as well be given themselves. -/
theorem parse_modes_agree (text : String) (limit : Nat) :
    SameAnswer text.toList (parse text ⟨.codePoint, limit⟩) (parse text ⟨.byte, limit⟩) ∧
      parseBytes text.toUTF8.data.toList limit = parse text ⟨.byte, limit⟩ := by
  rw [← Utf8.encodeAll_toList]
  exact ⟨recognize_in_step limit text.toList, rfl⟩

end LdapFilter
