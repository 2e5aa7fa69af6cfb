import LdapFilter.Proofs.LexicalErrors
import LdapFilter.Proofs.Locality
import LdapFilter.Proofs.Modes

/-!
# Where errors lie

An error is about a piece of the input, which its span covers, and the position of the error counts
the units before that piece. A lexer says so of the units in front of it, whether it gives a token
there or refuses them (`Accounts`); a run stands between units wherever it has got to
(`Accounts.exists_passed`), and what it reports is the token there or the refusal after it. So it
holds of every error of a parse and of a lexer, for the characters of a text, for its octets, and
for octets that need not spell one.
-/

namespace LdapFilter

/-! ## Pieces of an input -/

/-- How pieces of an input are measured: by the octets that they are written with, and by the units
that positions count. -/
structure Measure (ι : Type) where
  octets : List ι → List UInt8
  units : List ι → Nat
  /-- Whether the spelling of a character may break off in an input. -/
  breaks : Prop

namespace Measure

/-- The measure of a text that is read in a mode. -/
def ofMode (mode : Mode) : Measure Char where
  octets := Utf8.encodeAll
  units text :=
    match mode with
    | .codePoint => text.length
    | .byte => (Utf8.encodeAll text).length
  breaks := False

/-- The measure of octets. -/
def raw : Measure UInt8 :=
  ⟨id, List.length, True⟩

/-- Pieces are written one behind the other, and a longer input measures more. -/
structure Additive {ι : Type} (M : Measure ι) : Prop where
  octets_nil : M.octets [] = []
  octets_append : ∀ u v, M.octets (u ++ v) = M.octets u ++ M.octets v
  units_le : ∀ u v, M.units u ≤ M.units (u ++ v)

theorem additive_ofMode (mode : Mode) : (ofMode mode).Additive := by
  cases mode with
  | codePoint => exact ⟨rfl, Utf8.encodeAll_append, fun u v => by simp [ofMode]⟩
  | byte => exact ⟨rfl, Utf8.encodeAll_append, fun u v => by simp [ofMode]⟩

theorem additive_raw : raw.Additive :=
  ⟨rfl, fun _ _ => rfl, fun u v => by simp [raw]⟩

end Measure

section Pieces

variable {ι : Type} (M : Measure ι) (before found after : List ι)

/-- The token is about `found`, which comes behind `before`: its text is that piece, or it is the
end of the input. -/
structure Token.IsAbout (t : Token) : Prop where
  span : t.span = ⟨(M.octets before).length, (M.octets (before ++ found)).length⟩
  position : t.position = M.units before
  text : t.kind ≠ .eof → Utf8.encodeAll t.text.toList = M.octets found
  at_end : t.kind = .eof → t.text = Token.eofText ∧ found = [] ∧ after = []

/-- The error is about `found`, which comes behind `before`. Its position is in front of the piece,
but behind it where a spelling breaks off. -/
structure ParseError.IsAbout (e : ParseError) : Prop where
  span : e.span = .ok ⟨(M.octets before).length, (M.octets (before ++ found)).length⟩
  position : ¬e.isMalformed → e.position = M.units before
  malformed : e.isMalformed →
    M.breaks ∧ e.position = M.units (before ++ found) ∧ found ≠ []
  token : ∀ t, e.token? = some t → t.IsAbout M before found after

/-- The error is about a piece of the input, so its bounds are in order and within it. -/
structure ParseError.LiesIn (input : List ι) (e : ParseError) : Prop where
  piece : ∃ before found after, input = before ++ found ++ after ∧ e.IsAbout M before found after
  bounds : ∃ span, e.span = .ok span ∧ span.start ≤ span.stop ∧
    span.stop ≤ (M.octets input).length
  position_le : e.position ≤ M.units input

end Pieces

section Accounts

variable {σ ι : Type} [TokenSource σ] {M : Measure ι}

/-- An error about a piece of an input lies in it. -/
theorem ParseError.IsAbout.liesIn (hM : M.Additive) {before found after : List ι} {e : ParseError}
    (h : e.IsAbout M before found after) : e.LiesIn M (before ++ found ++ after) := by
  refine ⟨⟨before, found, after, rfl, h⟩, ⟨_, h.span, ?_, ?_⟩, ?_⟩
  · rw [hM.octets_append, List.length_append]
    exact Nat.le_add_right _ _
  · rw [hM.octets_append (before ++ found) after, List.length_append]
    exact Nat.le_add_right _ _
  · by_cases broken : e.isMalformed
    · rw [(h.malformed broken).2.1]
      exact hM.units_le (before ++ found) after
    · rw [h.position broken, List.append_assoc]
      exact hM.units_le before (found ++ after)

/-- An error that reports a token is about what the token is about. -/
theorem ParseError.Reports.isAbout {before found after : List ι} {t : Token} {e : ParseError}
    (h : e.Reports t) (ht : t.IsAbout M before found after) : e.IsAbout M before found after where
  span := by rw [h.span, ht.span]
  position := fun _ => h.position.trans ht.position
  malformed := fun broken => absurd (ParseError.isLexical_of_isMalformed broken) h.not_lexical
  token := by
    intro u hu
    rw [h.token u hu]
    exact ht

/-! ## Sources that account for their input -/

/-- What a source gives or refuses between units of an input is a piece of what is in front of it.
The source behind `before`, in front of `rest`, is `stand before rest`. -/
structure Accounts (M : Measure ι) (stand : List ι → List ι → σ) : Prop where
  of_ok : ∀ {before rest t s}, TokenSource.next (stand before rest) = .ok t s →
    ∃ found after, rest = found ++ after ∧ t.IsAbout M before found after ∧
      (t.kind ≠ .eof → s = stand (before ++ found) after)
  of_error : ∀ {before rest e s}, TokenSource.next (stand before rest) = .error e s →
    ∃ found after, rest = found ++ after ∧ (ParseError.lexical e).IsAbout M before found after

variable {stand : List ι → List ι → σ} {before rest input : List ι}

namespace Accounts

/-- A path passes the units that the texts of its tokens are written with, and leads to between
units again. -/
theorem exists_passed (h : Accounts M stand) (hM : M.Additive) {κ : Type}
    {R : Token → κ → Prop} {write : κ → List UInt8}
    (hw : ∀ t x, R t x → Utf8.encodeAll t.text.toList = write x) {c m : Lookahead σ} {xs : List κ}
    (hp : Path R c xs m) (hc : c.Heads (stand before rest)) :
    ∃ passed rest', rest = passed ++ rest' ∧ M.octets passed = xs.flatMap write ∧
      m.Heads (stand (before ++ passed) rest') := by
  induction hp generalizing before rest with
  | nil => exact ⟨[], rest, rfl, hM.octets_nil, by simpa using hc⟩
  | @cons c c' m x xs label taken _ ih =>
    obtain ⟨found, after, rfl, about, hs⟩ := h.of_ok hc.next_eq
    have behind := hs taken.1 ▸ taken.2
    obtain ⟨passed, rest', rfl, hpassed, hm⟩ := ih behind
    refine ⟨found ++ passed, rest', by rw [List.append_assoc], ?_, ?_⟩
    · rw [hM.octets_append, hpassed, ← about.text taken.1, hw _ _ label, List.flatMap_cons]
    · rwa [← List.append_assoc]

/-- The error of a parse is about a piece of its input, and what comes before the piece has been
read, so it spells a text. -/
theorem exists_piece_of_recognize (h : Accounts M stand) (hM : M.Additive) {limit : Nat}
    {e : ParseError} (he : outcome (recognize limit (stand [] input)) = .error e) :
    ∃ before found after text, input = before ++ found ++ after ∧
      e.IsAbout M before found after ∧ M.octets before = Utf8.encodeAll text := by
  obtain ⟨c, hc⟩ | ⟨e', s, hs⟩ := Lookahead.heads_or_error (stand [] input)
  swap
  · cases he.symm.trans (recognize_of_error hs)
    obtain ⟨found, after, rfl, about⟩ := h.of_error hs
    exact ⟨[], found, after, [], rfl, about, hM.octets_nil⟩
  obtain ⟨ts, m, v, hp, ha, hend⟩ := exists_answers limit hc
  have texts : ∀ t u : Token, t = u →
      Utf8.encodeAll t.text.toList = Utf8.encodeAll u.text.toList := by
    rintro t _ rfl
    rfl
  obtain ⟨before, rest, rfl, read, hm⟩ := h.exists_passed hM texts hp hc
  rw [List.nil_append] at hm
  have spelled : M.octets before = Utf8.encodeAll (ts.flatMap fun t => t.text.toList) :=
    read.trans List.flatMap_assoc.symm
  obtain ⟨found, after, rfl, about, hs⟩ := h.of_ok hm.next_eq
  rw [he] at ha
  by_cases hv : v = .stuck
  · -- what is refused comes right after the token at `m`
    subst hv
    obtain ⟨e', s, hnext, ha⟩ := ha
    cases ha
    rw [hs (hend rfl)] at hnext
    obtain ⟨found', after', rfl, about'⟩ := h.of_error hnext
    have spelled' : M.octets (before ++ found) =
        Utf8.encodeAll ((ts.flatMap fun t => t.text.toList) ++ m.current.text.toList) := by
      rw [hM.octets_append, spelled, ← about.text (hend rfl), Utf8.encodeAll_append]
    exact ⟨before ++ found, found', after', _, by simp, about', spelled'⟩
  · refine ⟨before, found, after, _, by simp, ?_, spelled⟩
    exact (ha.reports hv).isAbout about

/-- The error of a parse lies in its input. -/
theorem liesIn_of_recognize (h : Accounts M stand) (hM : M.Additive) {limit : Nat} {e : ParseError}
    (he : outcome (recognize limit (stand [] input)) = .error e) : e.LiesIn M input := by
  obtain ⟨before, found, after, -, rfl, about, -⟩ := h.exists_piece_of_recognize hM he
  exact about.liesIn hM

open TokenSource (tokens tokens_of_eof tokens_of_error tokens_eq_error_iff remaining_lt)

/-- The error of a lexer is about a piece of its input. -/
theorem liesIn_of_tokens (h : Accounts M stand) (hM : M.Additive) {e : LexError}
    (he : tokens (stand before rest) = .error e) :
    (ParseError.lexical e).LiesIn M (before ++ rest) := by
  induction hn : TokenSource.remaining (stand before rest) using Nat.strongRecOn
    generalizing before rest with
  | ind n ih =>
    cases hs : TokenSource.next (stand before rest) with
    | error e' s =>
      cases he.symm.trans (tokens_of_error hs)
      obtain ⟨found, after, rfl, about⟩ := h.of_error hs
      rw [← List.append_assoc]
      exact about.liesIn hM
    | ok t s =>
      by_cases hk : t.kind = .eof
      · cases he.symm.trans (tokens_of_eof hs hk)
      obtain ⟨found, after, rfl, -, behind⟩ := h.of_ok hs
      have fewer := remaining_lt hs hk
      have later := (tokens_eq_error_iff hs hk).1 he
      rw [behind hk] at fewer later
      rw [← List.append_assoc]
      exact ih _ (hn ▸ fewer) later rfl

end Accounts

end Accounts

/-! ## The lexers -/

/-- The end of the input is about no units. -/
theorem Token.isAbout_eof {ι : Type} (M : Measure ι) (before : List ι) :
    (Token.eof (M.units before) (M.octets before).length).IsAbout M before [] [] where
  span := by rw [List.append_nil]; rfl
  position := rfl
  text := fun h => absurd rfl h
  at_end := fun _ => ⟨rfl, rfl, rfl⟩

section Text

variable {σ : Type} [TokenSource σ] {mode : Mode} {stand : List Char → List Char → σ}

/-- A source accounts for a text if it gives a token for each character but NUL. -/
theorem accounts_ofMode
    (done : ∀ before, TokenSource.next (stand before []) =
      .ok (.eof ((Measure.ofMode mode).units before) (Utf8.encodeAll before).length)
        (stand before []))
    (token : ∀ before ch kind rest, Terminal.ofChar? ch = some kind →
      TokenSource.next (stand before (ch :: rest)) =
        .ok ⟨kind, ch.toString, (Measure.ofMode mode).units before,
          ⟨(Utf8.encodeAll before).length, (Utf8.encodeAll (before ++ [ch])).length⟩⟩
          (stand (before ++ [ch]) rest))
    (nul : ∀ before rest, TokenSource.next (stand before ('\x00' :: rest)) =
      .error (.invalidCharacter '\x00' ((Measure.ofMode mode).units before)
        (Utf8.encodeAll before).length) (stand before ('\x00' :: rest))) :
    Accounts (.ofMode mode) stand where
  of_ok {before rest t s} h := by
    cases rest with
    | nil =>
      obtain ⟨rfl, -⟩ := EStateM.Result.ok.inj (h.symm.trans (done before))
      exact ⟨[], [], rfl, Token.isAbout_eof _ before, fun hk => absurd rfl hk⟩
    | cons ch rest =>
      cases hk : Terminal.ofChar? ch with
      | none =>
        cases Terminal.ofChar?_eq_none_iff.1 hk
        cases h.symm.trans (nul before rest)
      | some kind =>
        obtain ⟨rfl, rfl⟩ := EStateM.Result.ok.inj (h.symm.trans (token before ch kind rest hk))
        refine ⟨[ch], rest, rfl, ⟨rfl, rfl, ?_, ?_⟩, fun _ => rfl⟩
        · intro _
          exact congrArg Utf8.encodeAll (String.toList_singleton ch)
        · intro he
          exact absurd (he ▸ hk) (Terminal.ofChar?_ne_eof ch)
  of_error {before rest e s} h := by
    cases rest with
    | nil => cases h.symm.trans (done before)
    | cons ch rest =>
      cases hk : Terminal.ofChar? ch with
      | some kind => cases h.symm.trans (token before ch kind rest hk)
      | none =>
        cases Terminal.ofChar?_eq_none_iff.1 hk
        obtain ⟨rfl, -⟩ := EStateM.Result.error.inj (h.symm.trans (nul before rest))
        exact ⟨['\x00'], rest, rfl, Span.ofBounds?_nul before, fun _ => rfl, nofun, nofun⟩

end Text

theorem CharCursor.accounts : Accounts (.ofMode .codePoint) CharCursor.behind :=
  accounts_ofMode next_behind_nil (fun _ _ _ _ hk => next_behind_cons hk) next_behind_nul

theorem ByteCursor.accounts_text : Accounts (.ofMode .byte) ByteCursor.behind :=
  accounts_ofMode next_behind_nil (fun _ _ _ _ hk => next_behind_cons hk) next_behind_nul

theorem ByteCursor.accounts_raw : Accounts .raw ByteCursor.between where
  of_ok {before rest t c} h := by
    obtain ⟨rfl, rfl, -⟩ | ⟨ch, kind, left, rfl, hk, rfl, rfl⟩ := cases_of_token h
    · exact ⟨[], [], rfl, Token.isAbout_eof .raw before, fun hk => absurd rfl hk⟩
    · have stop : before.length + (Utf8.encode ch).length = (before ++ Utf8.encode ch).length :=
        List.length_append.symm
      rw [stop]
      refine ⟨Utf8.encode ch, left, rfl, ⟨rfl, rfl, ?_, ?_⟩, fun _ => rfl⟩
      · intro _
        show Utf8.encodeAll ch.toString.toList = Utf8.encode ch
        simp
      · intro he
        exact absurd (he ▸ hk) (Terminal.ofChar?_ne_eof ch)
  of_error {before rest e c} h := by
    cases Utf8.onset rest with
    | nil => cases h.symm.trans (next_nil before.length)
    | encoded ch rest =>
      cases hk : Terminal.ofChar? ch with
      | some kind => cases h.symm.trans (next_encode hk rest before.length)
      | none =>
        cases Terminal.ofChar?_eq_none_iff.1 hk
        obtain ⟨rfl, -⟩ := EStateM.Result.error.inj (h.symm.trans (next_nul rest before.length))
        exact ⟨[0], rest, rfl, Span.ofBounds?_octet before 0, fun _ => rfl, nofun, nofun⟩
    | @invalid lead rest hl hn =>
      obtain ⟨rfl, -⟩ := EStateM.Result.error.inj (h.symm.trans (next_invalid rest _ hl hn))
      exact ⟨[lead], rest, rfl, Span.ofBounds?_octet before lead, fun _ => rfl, nofun, nofun⟩
    | @broken lead length found left hl hn _ hlt hfound _ =>
      have refused := next_malformed before.length hl hn hfound (by omega)
      obtain ⟨rfl, -⟩ := EStateM.Result.error.inj (h.symm.trans refused)
      have fault : before.length + 1 + found.length = (before ++ lead :: found).length := by
        simp only [List.length_append, List.length_cons]
        omega
      rw [fault]
      refine ⟨lead :: found, left, rfl, ?_, nofun, fun _ => ⟨trivial, rfl, nofun⟩, nofun⟩
      exact Span.ofBounds?_eq_ok_iff.2 ⟨by simp, rfl⟩

/-! ## Errors -/

/-- The error of a text lies in it. -/
theorem liesIn_of_parse {text : String} {mode : Mode} {limit : Nat} {e : ParseError}
    (h : parse text ⟨mode, limit⟩ = .error e) : e.LiesIn (.ofMode mode) text.toList := by
  cases mode with
  | codePoint => exact CharCursor.accounts.liesIn_of_recognize (Measure.additive_ofMode _) h
  | byte => exact ByteCursor.accounts_text.liesIn_of_recognize (Measure.additive_ofMode _) h

/-- The error of octets lies in them. -/
theorem liesIn_of_parseBytes {bytes : List UInt8} {limit : Nat} {e : ParseError}
    (h : parseBytes bytes limit = .error e) : e.LiesIn .raw bytes :=
  ByteCursor.accounts_raw.liesIn_of_recognize Measure.additive_raw h

/-- **Errors lie in the input.** The error of a parse or of a lexer has a span with its bounds in
order and within the input, and in a text it covers whole characters. A token that is reported is
what the span covers. The position counts the units before the span, and those of a spelling that
breaks off besides. -/
theorem errors_lie_in_input (limit : Nat) :
    (∀ (text : String) mode e, parse text ⟨mode, limit⟩ = .error e →
      e.LiesIn (.ofMode mode) text.toList) ∧
    (∀ (text : String) e, tokenize text = .error e →
      (ParseError.lexical e).LiesIn (.ofMode .codePoint) text.toList) ∧
    (∀ (text : String) e, tokenizeBytes text.toUTF8.data.toList = .error e →
      (ParseError.lexical e).LiesIn (.ofMode .byte) text.toList) ∧
    (∀ bytes e, parseBytes bytes limit = .error e → e.LiesIn .raw bytes) ∧
    ∀ bytes e, tokenizeBytes bytes = .error e → (ParseError.lexical e).LiesIn .raw bytes := by
  refine ⟨?_, ?_, ?_, ?_, ?_⟩
  · intro text mode e he
    exact liesIn_of_parse he
  · intro text e he
    have he : TokenSource.tokens (CharCursor.behind [] text.toList) = .error e := he
    exact CharCursor.accounts.liesIn_of_tokens (Measure.additive_ofMode .codePoint) he
  · intro text e he
    rw [← Utf8.encodeAll_toList] at he
    have he : TokenSource.tokens (ByteCursor.behind [] text.toList) = .error e := he
    exact ByteCursor.accounts_text.liesIn_of_tokens (Measure.additive_ofMode .byte) he
  · intro bytes e he
    exact liesIn_of_parseBytes he
  · intro bytes e he
    have he : TokenSource.tokens (ByteCursor.between [] bytes) = .error e := he
    exact ByteCursor.accounts_raw.liesIn_of_tokens Measure.additive_raw he

/-- A letter of two octets where none fits, and three octets of a spelling of four. -/
theorem errors_lie_in_input_item :
    (∃ before found after, "(ü)".toList = before ++ found ++ after ∧ before.length = 1 ∧
      Utf8.encodeAll found = [0xC3, 0xBC]) ∧
    ∃ before found after : List UInt8, [0x28, 0xF0, 0x9F, 0x98] = before ++ found ++ after ∧
      before.length = 1 ∧ (before ++ found).length = 4 ∧ found ≠ [] := by
  obtain ⟨text, -, -, bytes, -⟩ := errors_lie_in_input 1
  constructor
  · have refused : parse "(ü)" ⟨.codePoint, 1⟩ =
        .error (.unexpected (.terminal .colon) ⟨.utfmb, "ü", 1, ⟨1, 3⟩⟩) := by decide +kernel
    obtain ⟨before, found, after, split, about⟩ := (text _ _ _ refused).piece
    have octets := (about.token _ rfl).text (by decide)
    exact ⟨before, found, after, split, (about.position (by decide)).symm, octets.symm⟩
  · have refused : parseBytes [0x28, 0xF0, 0x9F, 0x98] 1 =
        .error (.lexical (.malformedSequence 0xF0 1 4 4)) := by decide +kernel
    obtain ⟨before, found, after, split, about⟩ := (bytes _ _ refused).piece
    obtain ⟨-, position, more⟩ := about.malformed rfl
    have start : before.length = 1 := congrArg Span.start (Except.ok.inj about.span).symm
    exact ⟨before, found, after, split, start, position.symm, more⟩

end LdapFilter
