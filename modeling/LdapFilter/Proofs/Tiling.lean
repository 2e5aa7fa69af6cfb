import LdapFilter.Proofs.LexicalErrors
import LdapFilter.Proofs.Modes

/-!
# The tokens of an input tile it

A lexer that succeeds gives one token for each character, and these lie end to end over the whole
input: no octet is left out and none is in two of them, each token has the text that it covers, and
their texts joined are the input (`Tiles`). This is proved of the tokens of a text behind
others (`CharCursor.TokensOf`), one character at a time; over the octets of a text the tokens are
the same but for the unit of their positions (`tokens_in_octets`).
-/

namespace LdapFilter

open Grammar (NulFree)
open TokenSource (tokens tokens_of_eof tokens_of_ok tokens_of_error tokens_eq_error_iff)

/-- Tokens that lie end to end from one octet to another, and of which none is empty. -/
inductive EndToEnd : (start : Nat) → List Token → (stop : Nat) → Prop where
  | nil (start : Nat) : EndToEnd start [] start
  | cons {t : Token} {ts : List Token} {stop : Nat} (more : t.span.start < t.span.stop)
      (rest : EndToEnd t.span.stop ts stop) : EndToEnd t.span.start (t :: ts) stop

/-- What a token before the end is of the octets: the slice that it covers. -/
structure Token.IsTile (bytes : List UInt8) (t : Token) : Prop where
  slice : Utf8.encodeAll t.text.toList = bytes.extract t.span.start t.span.stop
  more : t.kind ≠ .eof
  /-- The classes of octets are kinds of no token. -/
  not_octet : t.kind ∉ [.utf0, .utf1, .utf2, .utf3, .utf4]
  letter : t.kind = .alpha → ∃ ch : Char, ch.isAlpha ∧ t.text = ch.toString
  digit : t.kind = .digit → ∃ ch : Char, ch.isDigit ∧ t.text = ch.toString

/-- The tokens `ts` lie over the octets without a gap and without sharing one, and `last` is the end
behind them. -/
structure Tiles (bytes : List UInt8) (ts : List Token) (last : Token) : Prop where
  end_to_end : EndToEnd 0 ts bytes.length
  tile : ∀ t ∈ ts, t.IsTile bytes
  join : Utf8.encodeAll (String.join (ts.map Token.text)).toList = bytes
  last_eq : last.kind = .eof ∧ last.span = .empty bytes.length

/-! ## The tokens of a text -/

/-- No character is an octet class. -/
theorem Terminal.not_octet_of_ofChar? {ch : Char} {kind : Terminal} (h : ofChar? ch = some kind) :
    kind ∉ [.utf0, .utf1, .utf2, .utf3, .utf4] := by
  obtain ⟨-, h'⟩ | ⟨-, h'⟩ | ⟨-, h'⟩ | ⟨k, h', hk⟩ | h' | h' := ofChar?_sorts ch <;>
    cases h.symm.trans h'
  · decide
  · decide
  · cases kind <;> first | decide | cases hk
  · decide
  · decide

namespace CharCursor

/-- The tokens of the characters of a text that comes behind `before`, one for each. -/
inductive TokensOf : (before text : List Char) → List Token → Prop where
  | nil (before : List Char) : TokensOf before [] []
  | cons {before text : List Char} {ch : Char} {kind : Terminal} {ts : List Token}
      (kind_eq : Terminal.ofChar? ch = some kind) (rest : TokensOf (before ++ [ch]) text ts) :
      TokensOf before (ch :: text) (tokenBehind before ch kind :: ts)

/-- A text without NUL has its tokens, and then the end. -/
theorem tokens_behind {text : List Char} (h : NulFree text) (before : List Char) :
    ∃ ts, TokensOf before text ts ∧ tokens (behind before text) =
      .ok (ts ++ [.eof (before ++ text).length (Utf8.encodeAll (before ++ text)).length]) := by
  induction text generalizing before with
  | nil =>
    refine ⟨[], .nil before, ?_⟩
    rw [tokens_of_eof (next_behind_nil before) rfl, List.append_nil]
    rfl
  | cons ch text ih =>
    obtain ⟨hch, htext⟩ := Grammar.nulFree_cons.1 h
    obtain ⟨kind, hk⟩ := Terminal.exists_ofChar? hch
    obtain ⟨ts, hts, hall⟩ := ih htext (before ++ [ch])
    refine ⟨_, .cons hk hts, ?_⟩
    rw [tokens_of_ok (next_behind_cons hk) (spells_tokenBehind hk).kind_ne_eof, hall,
      List.append_assoc]
    rfl

/-- A text with NUL has no token there. -/
theorem tokens_behind_nul {u : List Char} (h : NulFree u) (before rest : List Char) :
    tokens (behind before (u ++ '\x00' :: rest)) = .error (.invalidCharacter '\x00'
      (before ++ u).length (Utf8.encodeAll (before ++ u)).length) := by
  induction u generalizing before with
  | nil =>
    rw [List.append_nil]
    exact tokens_of_error (next_behind_nul before rest)
  | cons ch u ih =>
    obtain ⟨hch, hu⟩ := Grammar.nulFree_cons.1 h
    obtain ⟨kind, hk⟩ := Terminal.exists_ofChar? hch
    have rest := ih hu (before ++ [ch])
    rw [List.append_assoc] at rest
    exact (tokens_eq_error_iff (next_behind_cons hk) (spells_tokenBehind hk).kind_ne_eof).2 rest

namespace TokensOf

variable {before text : List Char} {ts : List Token}

/-- Each token stands for a character of the text, behind those before it. -/
theorem exists_split (h : TokensOf before text ts) {t : Token} (ht : t ∈ ts) :
    ∃ u ch v kind, text = u ++ ch :: v ∧ Terminal.ofChar? ch = some kind ∧
      t = tokenBehind (before ++ u) ch kind := by
  induction h with
  | nil => cases ht
  | @cons before text ch kind ts hk _ ih =>
    obtain rfl | ht := List.mem_cons.1 ht
    · exact ⟨[], ch, text, kind, rfl, hk, by rw [List.append_nil]⟩
    · obtain ⟨u, ch', v, kind', rfl, hk', rfl⟩ := ih ht
      exact ⟨ch :: u, ch', v, kind', rfl, hk', by rw [List.append_assoc]; rfl⟩

theorem end_to_end (h : TokensOf before text ts) :
    EndToEnd (Utf8.encodeAll before).length ts (Utf8.encodeAll (before ++ text)).length := by
  induction h with
  | nil before =>
    rw [List.append_nil]
    exact .nil _
  | @cons before text ch kind ts hk _ ih =>
    have more : (Utf8.encodeAll before).length < (Utf8.encodeAll (before ++ [ch])).length := by
      rw [Utf8.length_encodeAll_concat]
      exact Nat.lt_add_of_pos_right ch.utf8Size_pos
    rw [List.append_assoc] at ih
    exact .cons (t := tokenBehind before ch kind) more ih

/-- The texts joined are the text. -/
theorem toList_join (h : TokensOf before text ts) :
    (String.join (ts.map Token.text)).toList = text := by
  induction h with
  | nil => rfl
  | @cons before text ch kind ts hk _ ih =>
    have first : (tokenBehind before ch kind).text.toList = [ch] :=
      (spells_tokenBehind hk).toList_text
    rw [String.toList_join] at ih ⊢
    rw [List.map_cons, List.flatMap_cons, ih, first, List.singleton_append]

theorem length_eq (h : TokensOf before text ts) : ts.length = text.length := by
  induction h with
  | nil => rfl
  | cons _ _ ih => rw [List.length_cons, ih, List.length_cons]

theorem positions (h : TokensOf before text ts) :
    ts.map Token.position = List.range' before.length text.length := by
  induction h with
  | nil => rfl
  | @cons before text ch kind ts hk _ ih =>
    rw [List.length_append, List.length_singleton] at ih
    rw [List.map_cons, ih, List.length_cons, List.range'_succ]
    rfl

theorem tiles (h : TokensOf [] text ts) (position : Nat) :
    Tiles (Utf8.encodeAll text) ts (.eof position (Utf8.encodeAll text).length) where
  end_to_end := h.end_to_end
  tile := by
    intro t ht
    obtain ⟨u, ch, v, kind, rfl, hk, rfl⟩ := h.exists_split ht
    have spells : (tokenBehind ([] ++ u) ch kind).Spells ch := spells_tokenBehind hk
    refine ⟨?_, spells.kind_ne_eof, Terminal.not_octet_of_ofChar? hk, ?_, ?_⟩
    · rw [spells.toList_text]
      simp [tokenBehind]
    · intro hkind
      exact ⟨ch, spells.kind_eq_alpha_iff.1 hkind, rfl⟩
    · intro hkind
      exact ⟨ch, spells.kind_eq_digit_iff.1 hkind, rfl⟩
  join := by rw [h.toList_join]
  last_eq := ⟨rfl, rfl⟩

end TokensOf

end CharCursor

/-! ## The tokens of octets -/

/-- Over the octets of a text the tokens have their positions in octets. -/
theorem tokens_in_octets {before text : List Char} {ts : List Token}
    (h : tokens (CharCursor.behind before text) = .ok ts) :
    tokens (ByteCursor.behind before text) = .ok (ts.map Token.inOctets) := by
  induction text generalizing before ts with
  | nil =>
    cases h.symm.trans (tokens_of_eof (CharCursor.next_behind_nil before) rfl)
    exact tokens_of_eof (ByteCursor.next_behind_nil before) rfl
  | cons ch text ih =>
    cases hk : Terminal.ofChar? ch with
    | none =>
      cases Terminal.ofChar?_eq_none_iff.1 hk
      cases h.symm.trans (tokens_of_error (CharCursor.next_behind_nul before text))
    | some kind =>
      have more : kind ≠ .eof := fun he => Terminal.ofChar?_ne_eof ch (he ▸ hk)
      rw [tokens_of_ok (CharCursor.next_behind_cons hk) more] at h
      rw [tokens_of_ok (ByteCursor.next_behind_cons hk) more]
      cases hrest : tokens (CharCursor.behind (before ++ [ch]) text) with
      | error e =>
        rw [hrest] at h
        cases h
      | ok us =>
        rw [hrest] at h
        cases h
        rw [ih hrest]
        rfl

theorem EndToEnd.map_inOctets {start stop : Nat} {ts : List Token} (h : EndToEnd start ts stop) :
    EndToEnd start (ts.map Token.inOctets) stop := by
  induction h with
  | nil => exact .nil _
  | @cons t _ _ more _ ih => exact .cons (t := t.inOctets) more ih

theorem Tiles.map_inOctets {bytes : List UInt8} {ts : List Token} {last : Token}
    (h : Tiles bytes ts last) : Tiles bytes (ts.map Token.inOctets) last.inOctets where
  end_to_end := h.end_to_end.map_inOctets
  tile := by
    intro t' ht'
    obtain ⟨t, ht, rfl⟩ := List.mem_map.1 ht'
    obtain ⟨slice, more, not_octet, letter, digit⟩ := h.tile t ht
    exact ⟨slice, more, not_octet, letter, digit⟩
  join := by
    rw [List.map_map]
    exact h.join
  last_eq := h.last_eq

/-! ## Both lexers -/

/-- A text is read to its end, or it has NUL and is read up to the first one. -/
theorem tokenize_cases (text : List Char) :
    (NulFree text ∧ ∃ ts, CharCursor.TokensOf [] text ts ∧ tokens (CharCursor.behind [] text) =
      .ok (ts ++ [.eof text.length (Utf8.encodeAll text).length])) ∨
    ∃ u rest, text = u ++ '\x00' :: rest ∧ NulFree u ∧ tokens (CharCursor.behind [] text) =
      .error (.invalidCharacter '\x00' u.length (Utf8.encodeAll u).length) := by
  by_cases h : '\x00' ∈ text
  · right
    obtain ⟨u, rest, rfl, hu⟩ := List.eq_append_cons_of_mem h
    have hu : NulFree u := by
      rintro ch hch rfl
      exact hu hch
    exact ⟨u, rest, rfl, hu, CharCursor.tokens_behind_nul hu [] rest⟩
  · left
    have ht : NulFree text := by
      rintro ch hch rfl
      exact h hch
    exact ⟨ht, CharCursor.tokens_behind ht []⟩

/-- Octets that have tokens are those of a text, and the tokens those of its characters. -/
theorem exists_text_of_tokenizeBytes {bytes : List UInt8} {all : List Token}
    (h : tokenizeBytes bytes = .ok all) :
    ∃ text ts, bytes = Utf8.encodeAll text ∧ CharCursor.TokensOf [] text ts ∧
      all = (ts ++ [Token.eof text.length (Utf8.encodeAll text).length]).map Token.inOctets := by
  have run : tokenizeBytes bytes = tokens (⟨bytes, 0⟩ : ByteCursor) := rfl
  rw [run] at h
  obtain ⟨text, left, us, hfree, hbytes, -, -, hend⟩ := ByteCursor.tokens_cases bytes 0
  obtain ⟨rfl, -⟩ | ⟨-, e, k, he, -⟩ := hend
  · rw [List.append_nil] at hbytes
    subst hbytes
    obtain ⟨ts, hts, hall⟩ := CharCursor.tokens_behind hfree []
    cases h.symm.trans (tokens_in_octets hall)
    exact ⟨text, ts, rfl, hts, rfl⟩
  · cases h.symm.trans he

/-- **Tokens tile the input.** A text has its tokens unless it has NUL, and then the first one is the
error. Where a lexer succeeds, its tokens and the end behind them tile the input, and they have
their positions in the units that it was read by. -/
theorem tokens_tile_input :
    (∀ text, (∃ e, tokenize text = .error e) ↔ '\x00' ∈ text.toList) ∧
    (∀ text e, tokenize text = .error e → ∃ before rest, text = before ++ rest ∧
      '\x00' ∉ before.toList ∧ rest.toList.head? = some '\x00' ∧
      e = .invalidCharacter '\x00' before.length before.utf8ByteSize) ∧
    (∀ text all, tokenize text = .ok all → ∃ ts last, all = ts ++ [last] ∧
      Tiles text.toUTF8.data.toList ts last ∧ String.join (ts.map Token.text) = text ∧
      all.map Token.position = List.range all.length) ∧
    ∀ bytes all, tokenizeBytes bytes = .ok all → ∃ ts last, all = ts ++ [last] ∧
      Tiles bytes ts last ∧ ∀ t ∈ all, t.position = t.span.start := by
  have run (text : String) : tokenize text = tokens (CharCursor.behind [] text.toList) := rfl
  refine ⟨?_, ?_, ?_, ?_⟩
  · intro text
    rw [run]
    obtain ⟨hfree, ts, -, h⟩ | ⟨u, rest, htext, -, h⟩ := tokenize_cases text.toList
    · rw [h]
      constructor
      · rintro ⟨e, he⟩
        cases he
      · intro hnul
        exact absurd rfl (hfree _ hnul)
    · rw [h, htext]
      exact ⟨fun _ => by simp, fun _ => ⟨_, rfl⟩⟩
  · intro text e he
    rw [run] at he
    obtain ⟨-, ts, -, h⟩ | ⟨u, rest, htext, hu, h⟩ := tokenize_cases text.toList
    · cases h.symm.trans he
    · cases h.symm.trans he
      obtain ⟨before, after, rfl, rfl, hafter⟩ := exists_append_of_toList htext
      refine ⟨before, after, rfl, fun hnul => hu _ hnul rfl, by rw [hafter]; rfl, ?_⟩
      rw [Utf8.length_encodeAll_toList, String.length_toList]
  · intro text all hall
    rw [run] at hall
    obtain ⟨-, ts, hts, h⟩ | ⟨u, rest, -, -, h⟩ := tokenize_cases text.toList
    · cases h.symm.trans hall
      refine ⟨ts, _, rfl, ?_, ?_, ?_⟩
      · rw [← Utf8.encodeAll_toList]
        exact hts.tiles _
      · exact String.toList_inj.1 hts.toList_join
      · rw [List.map_append, hts.positions, List.length_append, hts.length_eq,
          List.length_singleton, List.range_succ, List.range_eq_range']
        rfl
    · cases h.symm.trans hall
  · intro bytes all hall
    obtain ⟨text, ts, rfl, hts, rfl⟩ := exists_text_of_tokenizeBytes hall
    refine ⟨ts.map Token.inOctets, _, List.map_append, (hts.tiles _).map_inOctets, ?_⟩
    intro t ht
    obtain ⟨t', -, rfl⟩ := List.mem_map.1 ht
    rfl

/-- A text with a character of two octets, and a text with NUL. -/
theorem tokens_tile_input_item :
    (∃ ts last, tokenizeBytes [0x28, 0xC3, 0xBC, 0x29] = .ok (ts ++ [last]) ∧
      Tiles [0x28, 0xC3, 0xBC, 0x29] ts last) ∧
    ∃ before rest, "(a\x00b\x00" = before ++ rest ∧ '\x00' ∉ before.toList ∧
      rest.toList.head? = some '\x00' ∧ (2, 2) = (before.length, before.utf8ByteSize) := by
  obtain ⟨-, refused, -, read⟩ := tokens_tile_input
  constructor
  · cases hall : tokenizeBytes [0x28, 0xC3, 0xBC, 0x29] with
    | ok all =>
      obtain ⟨ts, last, rfl, tiles, -⟩ := read _ _ hall
      exact ⟨ts, last, rfl, tiles⟩
    | error e =>
      have accepted : (tokenizeBytes [0x28, 0xC3, 0xBC, 0x29]).isOk := by decide +kernel
      rw [hall] at accepted
      cases accepted
  · have nul : tokenize "(a\x00b\x00" = .error (.invalidCharacter '\x00' 2 2) := by
      decide +kernel
    obtain ⟨before, rest, htext, free, first, place⟩ := refused _ _ nul
    obtain ⟨-, position, offset⟩ := LexError.invalidCharacter.inj place
    exact ⟨before, rest, htext, free, first, Prod.ext position offset⟩

end LdapFilter
