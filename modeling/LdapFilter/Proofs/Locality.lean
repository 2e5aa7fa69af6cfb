import LdapFilter.Proofs.ByteReading
import LdapFilter.Proofs.Recognition

/-!
# What comes after the offending token

A lexer reads the units of an input, characters or octets, and what it makes of some of them does
not depend on those after them (`IsLocal`). The one exception is a spelling that breaks off, as it
is refused for what comes instead. A run takes tokens up to the one at fault and no further, so the
same tokens are there however the input goes on after that one (`Path.exists_used`), and the answer
is the same (`recognize_of_used`).
-/

namespace LdapFilter

/-- Whether an error is that a spelling breaks off. -/
def LexError.isMalformed : LexError → Bool
  | malformedSequence .. => true
  | _ => false

/-- Whether an error is that a spelling breaks off. -/
def ParseError.isMalformed : ParseError → Bool
  | lexical e => e.isMalformed
  | _ => false

theorem ParseError.isLexical_of_isMalformed {e : ParseError} (h : e.isMalformed) :
    e.isLexical := by
  cases e with
  | lexical => rfl
  | unexpected => cases h
  | nestingTooDeep => cases h
  | trailing => cases h

/-- Only a spelling that breaks off could have its bounds in the wrong order. -/
theorem ParseError.exists_span {e : ParseError} (he : ¬e.isMalformed) :
    ∃ span, e.span = .ok span := by
  cases e with
  | lexical e =>
    cases e with
    | invalidCharacter => exact ⟨_, Span.ofBounds?_eq_ok_iff.2 ⟨Nat.le_add_right _ _, rfl⟩⟩
    | invalidByte => exact ⟨_, Span.ofBounds?_eq_ok_iff.2 ⟨Nat.le_add_right _ _, rfl⟩⟩
    | malformedSequence => exact absurd rfl he
  | unexpected => exact ⟨_, rfl⟩
  | nestingTooDeep => exact ⟨_, rfl⟩
  | trailing => exact ⟨_, rfl⟩

/-! ## Local sources -/

section Local

variable {σ ι : Type} [TokenSource σ] (stand : List ι → List ι → σ) (size : List ι → Nat)

/-- How a source goes on behind some units, in front of others: with the end, with a token or an
error that is made of the first of them, or with a spelling that breaks off. The source behind
`before` and in front of `rest` is `stand before rest`, and `size` counts octets. -/
inductive SourceOnset (before : List ι) : List ι → Prop where
  | done {position offset : Nat} {s : σ}
      (next : TokenSource.next (stand before []) = .ok (.eof position offset) s) :
      SourceOnset before []
  | token (used rest : List ι) {t : Token} (more : t.kind ≠ .eof)
      (stop : t.span.stop = size (before ++ used))
      (next : ∀ rest, TokenSource.next (stand before (used ++ rest)) =
        .ok t (stand (before ++ used) rest)) : SourceOnset before (used ++ rest)
  | refused (used rest : List ι) {e : LexError} {start : Nat}
      (span : e.span = .ok ⟨start, size (before ++ used)⟩)
      (next : ∀ rest, ∃ s, TokenSource.next (stand before (used ++ rest)) = .error e s) :
      SourceOnset before (used ++ rest)
  | malformed {rest : List ι} {e : LexError} {s : σ} (broken : e.isMalformed)
      (next : TokenSource.next (stand before rest) = .error e s) : SourceOnset before rest

/-- A source stands between units of an input and does not look past those it takes. -/
def IsLocal : Prop :=
  ∀ before rest, SourceOnset stand size before rest

end Local

/-- The span of NUL behind a text. -/
theorem Span.ofBounds?_nul (before : List Char) :
    ofBounds? (Utf8.encodeAll before).length
      ((Utf8.encodeAll before).length + '\x00'.utf8Size) =
      .ok ⟨(Utf8.encodeAll before).length, (Utf8.encodeAll (before ++ ['\x00'])).length⟩ := by
  rw [Utf8.encodeAll_append, List.length_append]
  exact ofBounds?_eq_ok_iff.2 ⟨Nat.le_add_right _ _, rfl⟩

/-- The span of one octet behind others. -/
theorem Span.ofBounds?_octet (before : List UInt8) (b : UInt8) :
    ofBounds? before.length (before.length + 1) =
      .ok ⟨before.length, (before ++ [b]).length⟩ := by
  rw [List.length_append]
  exact ofBounds?_eq_ok_iff.2 ⟨Nat.le_add_right _ _, rfl⟩

theorem CharCursor.isLocal : IsLocal behind fun units => (Utf8.encodeAll units).length := by
  intro before rest
  cases rest with
  | nil => exact .done (next_behind_nil before)
  | cons ch rest =>
    cases hk : Terminal.ofChar? ch with
    | none =>
      cases Terminal.ofChar?_eq_none_iff.1 hk
      have span : (LexError.invalidCharacter '\x00' before.length
          (Utf8.encodeAll before).length).span = .ok ⟨(Utf8.encodeAll before).length,
            (Utf8.encodeAll (before ++ ['\x00'])).length⟩ := Span.ofBounds?_nul before
      exact .refused ['\x00'] rest span fun rest => ⟨_, next_behind_nul before rest⟩
    | some kind =>
      have spells : (tokenBehind before ch kind).Spells ch := spells_tokenBehind hk
      exact .token [ch] rest spells.kind_ne_eof rfl fun rest => next_behind_cons hk

/-- The cursor over octets behind `before`, in front of `rest`. -/
def ByteCursor.between (before rest : List UInt8) : ByteCursor :=
  ⟨rest, before.length⟩

theorem ByteCursor.isLocal : IsLocal between List.length := by
  intro before rest
  cases Utf8.onset rest with
  | nil => exact .done (next_nil _)
  | encoded ch rest =>
    cases hk : Terminal.ofChar? ch with
    | none =>
      cases Terminal.ofChar?_eq_none_iff.1 hk
      have span : (LexError.invalidCharacter '\x00' before.length before.length).span =
          .ok ⟨before.length, (before ++ [0]).length⟩ := Span.ofBounds?_octet before 0
      exact .refused [0] rest span fun rest => ⟨_, next_nul rest _⟩
    | some kind =>
      have next (rest : List UInt8) := next_encode hk rest before.length
      rw [← List.length_append] at next
      have more : kind ≠ .eof := fun h => Terminal.ofChar?_ne_eof ch (h ▸ hk)
      exact .token (Utf8.encode ch) rest more rfl next
  | @invalid lead rest hl hn =>
    have span : (LexError.invalidByte lead before.length).span =
        .ok ⟨before.length, (before ++ [lead]).length⟩ := Span.ofBounds?_octet before lead
    exact .refused [lead] rest span fun rest => ⟨_, next_invalid rest _ hl hn⟩
  | broken hl hn _ hlt hfound _ =>
    exact .malformed rfl (next_malformed _ hl hn hfound (by omega))

/-! ## Paths and answers -/

section Used

variable {σ ι : Type} [TokenSource σ] {stand : List ι → List ι → σ} {size : List ι → Nat}
  (hlocal : IsLocal stand size) {c m : Lookahead σ} {before rest : List ι}
include hlocal

/-- A lookahead stands at the end, or at a token that is made of the units in front of it. -/
theorem cases_of_heads (hc : c.Heads (stand before rest)) :
    (∃ position offset, c.current = .eof position offset) ∨
      c.kind ≠ .eof ∧ ∃ used left, rest = used ++ left ∧ c.source = stand (before ++ used) left ∧
        c.current.span.stop = size (before ++ used) ∧
        ∀ left, TokenSource.next (stand before (used ++ left)) =
          .ok c.current (stand (before ++ used) left) := by
  cases hlocal before rest with
  | done next =>
    obtain ⟨ht, -⟩ := EStateM.Result.ok.inj (hc.symm.trans next)
    exact .inl ⟨_, _, ht⟩
  | token used left more stop next =>
    obtain ⟨rfl, hs⟩ := EStateM.Result.ok.inj (hc.symm.trans (next left))
    exact .inr ⟨more, used, left, rfl, hs, stop, next⟩
  | refused used left span next =>
    obtain ⟨s, next⟩ := next left
    cases hc.symm.trans next
  | malformed broken next => cases hc.symm.trans next

/-- Units that are refused are refused however the input goes on, unless a spelling breaks off. -/
theorem exists_used_of_error {e : LexError} {s : σ}
    (h : TokenSource.next (stand before rest) = .error e s) (he : ¬e.isMalformed) :
    ∃ used left start, rest = used ++ left ∧ e.span = .ok ⟨start, size (before ++ used)⟩ ∧
      ∀ left, ∃ s, TokenSource.next (stand before (used ++ left)) = .error e s := by
  cases hlocal before rest with
  | done next => cases h.symm.trans next
  | token used left _ stop next => cases h.symm.trans (next left)
  | refused used left span next =>
    obtain ⟨s', hs⟩ := next left
    obtain ⟨rfl, -⟩ := EStateM.Result.error.inj (h.symm.trans hs)
    exact ⟨used, left, _, rfl, span, next⟩
  | malformed broken next =>
    obtain ⟨rfl, -⟩ := EStateM.Result.error.inj (h.symm.trans next)
    exact absurd broken he

/-- The tokens on a path are there however the input goes on after it. -/
theorem Path.exists_used {ts : List Token} (h : Path (· = ·) c ts m)
    (hc : c.Heads (stand before rest)) :
    ∃ used left, rest = used ++ left ∧ m.Heads (stand (before ++ used) left) ∧
      ∀ (left : List ι) (n : Lookahead σ), n.Heads (stand (before ++ used) left) →
        ∃ d : Lookahead σ, d.Heads (stand before (used ++ left)) ∧ Path (· = ·) d ts n := by
  induction h generalizing before rest with
  | nil c =>
    refine ⟨[], rest, rfl, by simpa using hc, ?_⟩
    intro left n hn
    exact ⟨n, by simpa using hn, .nil n⟩
  | @cons c c' m t ts label taken _ ih =>
    obtain ⟨_, _, ht⟩ | ⟨-, used, left, rfl, hs, -, next⟩ := cases_of_heads hlocal hc
    · exact absurd (congrArg Token.kind ht) taken.1
    have hc' : c'.Heads (stand (before ++ used) left) := hs ▸ taken.2
    obtain ⟨used', left', rfl, hm, again⟩ := ih hc'
    refine ⟨used ++ used', left', by simp, by simpa using hm, ?_⟩
    intro left n hn
    obtain ⟨d', hd', path⟩ := again left n (by simpa using hn)
    have hd : Lookahead.Heads (⟨stand (before ++ used) (used' ++ left), c.current⟩ : Lookahead σ)
        (stand before (used ++ used' ++ left)) := by
      rw [List.append_assoc]
      exact next (used' ++ left)
    exact ⟨_, hd, .cons label ⟨taken.1, hd'⟩ path⟩

/-- The run of filters from the first token of an input reaches its verdict however the input goes
on after the token where it was reached, if that one cannot be taken then either. -/
theorem answers_of_used {limit : Nat} {text : List ι} (hc : c.Heads (stand [] text)) :
    ∃ (used left : List ι) (m : Lookahead σ) (v : Verdict),
      text = used ++ left ∧ m.Heads (stand used left) ∧ v.Answers limit m
        (outcome (recognize limit (stand [] text))) ∧
      (v = .stuck → m.kind ≠ .eof) ∧
      ∀ (left : List ι) (n : Lookahead σ), n.Heads (stand used left) → n.current = m.current →
        (v = .stuck → n.Stuck) →
        v.Answers limit n (outcome (recognize limit (stand [] (used ++ left)))) := by
  obtain ⟨ts, m, v, hp, hv, hend, -, ht⟩ := FilterRule.tracked_self σ limit 0 limit c
  obtain ⟨used, left, rfl, hm, again⟩ := hp.exists_used hlocal hc
  refine ⟨used, left, m, v, rfl, hm, hv.answers hc, hend, ?_⟩
  intro left n hn hcurrent hstuck
  obtain ⟨d, hd, path⟩ := again left n hn
  have same : m.current.Alike n.current := hcurrent ▸ .refl _
  exact (ht d n path.alike_self (fun _ => same) hstuck fun _ => trivial).answers hd

/-- A rejection is decided by the input up to the end of the units at fault. -/
theorem recognize_of_used {limit : Nat} {text : List ι} {e : ParseError} {span : Span}
    (h : outcome (recognize limit (stand [] text)) = .error e) (he : ¬e.isMalformed)
    (hspan : e.span = .ok span) (hne : ¬span.isEmpty) :
    ∃ used left, text = used ++ left ∧ size used = span.stop ∧
      ∀ left, outcome (recognize limit (stand [] (used ++ left))) = .error e := by
  obtain ⟨c, hc⟩ | ⟨e', s, he'⟩ := Lookahead.heads_or_error (stand [] text)
  swap
  · cases h.symm.trans (recognize_of_error he')
    obtain ⟨used, left, start, rfl, hused, next⟩ := exists_used_of_error hlocal he' he
    cases hspan.symm.trans hused
    refine ⟨used, left, rfl, rfl, ?_⟩
    intro left
    obtain ⟨s, hs⟩ := next left
    exact recognize_of_error hs
  obtain ⟨used, left, m, v, rfl, hm, ha, hend, again⟩ := answers_of_used hlocal hc
  rw [h] at ha
  obtain ⟨_, _, ht⟩ | ⟨more, used', left', rfl, hs, stop, next⟩ := cases_of_heads hlocal hm
  · -- no octets are at fault at the end
    by_cases hv : v = .stuck
    · exact absurd (congrArg Token.kind ht) (hend hv)
    · cases hspan.symm.trans (ha.reports hv).span
      rw [ht] at hne
      exact absurd (decide_eq_true rfl) hne
  by_cases hv : v = .stuck
  · -- the units at fault come after the token that cannot be taken
    subst hv
    obtain ⟨e', s, he', h'⟩ := ha
    cases h'
    rw [hs] at he'
    obtain ⟨used'', left'', start, rfl, hused, next'⟩ := exists_used_of_error hlocal he' he
    cases hspan.symm.trans hused
    refine ⟨used ++ used' ++ used'', left'', by simp, rfl, ?_⟩
    intro left
    obtain ⟨s', hs'⟩ := next' left
    obtain ⟨e'', k, hk, answer⟩ := again _ ⟨stand (used ++ used') (used'' ++ left), m.current⟩
      (next _) rfl fun _ => ⟨_, _, hs'⟩
    cases hs'.symm.trans hk
    simpa using answer
  · cases hspan.symm.trans (ha.reports hv).span
    refine ⟨used ++ used', left', by simp, stop.symm, ?_⟩
    intro left
    have answers := again _ ⟨stand (used ++ used') left, m.current⟩ (next left) rfl
      fun h => absurd h hv
    rw [List.append_assoc]
    exact ha.eq_of_current answers rfl hv

end Used

/-- **What was not read.** A rejection has a span, if it is not for a spelling that breaks off. Where
the span is not empty, as it is at the end of the input, the rejection depends on the input up to
the end of the span only: it is the same however the input goes on after that. -/
theorem parse_error_of_same_beginning (limit : Nat) (e : ParseError) (he : ¬e.isMalformed) :
    ∃ span, e.span = .ok span ∧ (¬span.isEmpty →
      (∀ text, parse text ⟨.codePoint, limit⟩ = .error e →
        ∃ before rest, text = before ++ rest ∧ before.utf8ByteSize = span.stop ∧
          ∀ t, parse (before ++ t) ⟨.codePoint, limit⟩ = .error e) ∧
      ∀ bytes, parseBytes bytes limit = .error e → span.stop ≤ bytes.length ∧
        ∀ t, parseBytes (bytes.take span.stop ++ t) limit = .error e) := by
  obtain ⟨span, hspan⟩ := ParseError.exists_span he
  refine ⟨span, hspan, ?_⟩
  intro hne
  constructor
  · intro text h
    obtain ⟨used, left, htext, hsize, again⟩ :=
      recognize_of_used CharCursor.isLocal h he hspan hne
    obtain ⟨before, rest, rfl, rfl, rfl⟩ := exists_append_of_toList htext
    rw [Utf8.length_encodeAll_toList] at hsize
    refine ⟨before, rest, rfl, hsize, ?_⟩
    intro t
    rw [parse_codePoint, String.toList_append]
    exact again t.toList
  · intro bytes h
    obtain ⟨used, left, rfl, hsize, again⟩ :=
      recognize_of_used ByteCursor.isLocal h he hspan hne
    constructor
    · rw [← hsize, List.length_append]
      exact Nat.le_add_right _ _
    · intro t
      rw [← hsize, List.take_left]
      exact again t

/-- A parenthesis that comes too early, and an octet that begins no spelling, whatever comes after
them. -/
theorem parse_error_of_same_beginning_item :
    (∃ before, before.utf8ByteSize = 3 ∧ ∀ t, parse (before ++ t) ⟨.codePoint, 1⟩ =
      .error (.unexpected .filterType ⟨.rparen, ")", 2, ⟨2, 3⟩⟩)) ∧
    ∀ t, parseBytes ([0x28, 0xFF] ++ t) 1 = .error (.lexical (.invalidByte 0xFF 1)) := by
  constructor
  · have early : parse "(a)=b)" ⟨.codePoint, 1⟩ =
        .error (.unexpected .filterType ⟨.rparen, ")", 2, ⟨2, 3⟩⟩) := by decide +kernel
    obtain ⟨span, hspan, h⟩ := parse_error_of_same_beginning 1
      (.unexpected .filterType ⟨.rparen, ")", 2, ⟨2, 3⟩⟩) (by decide)
    cases hspan
    obtain ⟨before, -, -, hsize, h⟩ := (h (by decide)).1 "(a)=b)" early
    exact ⟨before, hsize, h⟩
  · have invalid : parseBytes [0x28, 0xFF, 0x29] 1 = .error (.lexical (.invalidByte 0xFF 1)) := by
      decide +kernel
    obtain ⟨span, hspan, h⟩ := parse_error_of_same_beginning 1 (.lexical (.invalidByte 0xFF 1))
      (by decide)
    cases hspan
    exact ((h (by decide)).2 [0x28, 0xFF, 0x29] invalid).2

end LdapFilter
