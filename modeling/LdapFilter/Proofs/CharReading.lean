import LdapFilter.Proofs.Encoding
import LdapFilter.Proofs.NulFree
import LdapFilter.Proofs.Spelling

/-!
# Reading a text by characters

A cursor over characters gives a token for each character up to the first NUL, so its lookaheads
read exactly the beginnings of its text that lie before one. What a lookahead has read fixes where
it stands: its position counts the characters of what was read, and its offset their octets
(`Path.rest_eq`).
-/

namespace LdapFilter

namespace CharCursor

/-- The cursor behind `before`, in front of `rest`. -/
def behind (before rest : List Char) : CharCursor :=
  ⟨rest, before.length, (Utf8.encodeAll before).length⟩

theorem advance_behind_cons (before rest : List Char) (ch : Char) :
    (behind before (ch :: rest)).advance = behind (before ++ [ch]) rest := by
  simp only [behind, advance, Utf8.length_encodeAll_concat, List.length_append,
    List.length_singleton]

theorem next_behind_nil (before : List Char) :
    TokenSource.next (behind before []) =
      .ok (.eof before.length (Utf8.encodeAll before).length) (behind before []) :=
  rfl

theorem next_behind_nul (before rest : List Char) :
    TokenSource.next (behind before ('\x00' :: rest)) =
      .error (.invalidCharacter '\x00' before.length (Utf8.encodeAll before).length)
        (behind before ('\x00' :: rest)) :=
  rfl

/-- The token of a character that is a terminal. -/
def tokenBehind (before : List Char) (ch : Char) (kind : Terminal) : Token :=
  ⟨kind, ch.toString, before.length,
    ⟨(Utf8.encodeAll before).length, (Utf8.encodeAll (before ++ [ch])).length⟩⟩

theorem next_behind_cons {before rest : List Char} {ch : Char} {kind : Terminal}
    (h : Terminal.ofChar? ch = some kind) :
    TokenSource.next (behind before (ch :: rest)) =
      .ok (tokenBehind before ch kind) (behind (before ++ [ch]) rest) := by
  have step := advance_behind_cons before rest ch
  have current : (behind before (ch :: rest)).current? = some ch := rfl
  show nextToken _ = _
  simp only [nextToken, current, h, step]
  rfl

/-- What a lookahead at a place in a text stands before: the end, or a character. -/
theorem heads_behind {c : Lookahead CharCursor} {before rest : List Char}
    (h : c.Heads (behind before rest)) :
    (rest = [] ∧ c.current = .eof before.length (Utf8.encodeAll before).length) ∨
      ∃ ch tail kind, rest = ch :: tail ∧ Terminal.ofChar? ch = some kind ∧
        c.current = tokenBehind before ch kind ∧ c.source = behind (before ++ [ch]) tail := by
  cases rest with
  | nil =>
    obtain ⟨ht, -⟩ := EStateM.Result.ok.inj (h.symm.trans (next_behind_nil before))
    exact .inl ⟨rfl, ht⟩
  | cons ch tail =>
    cases hk : Terminal.ofChar? ch with
    | none =>
      cases Terminal.ofChar?_eq_none_iff.1 hk
      exact nomatch h.symm.trans (next_behind_nul before tail)
    | some kind =>
      obtain ⟨ht, hs⟩ := EStateM.Result.ok.inj (h.symm.trans (next_behind_cons hk))
      exact .inr ⟨ch, tail, kind, rfl, hk, ht, hs⟩

/-- A token lies behind the characters, and behind the octets, of what comes before it. -/
theorem place_of_heads {c : Lookahead CharCursor} {before rest : List Char}
    (h : c.Heads (behind before rest)) :
    c.current.position = before.length ∧
      c.current.span.start = (Utf8.encodeAll before).length := by
  obtain ⟨-, ht⟩ | ⟨ch, tail, kind, -, -, ht, -⟩ := heads_behind h
  · rw [ht]
    exact ⟨rfl, rfl⟩
  · rw [ht]
    exact ⟨rfl, rfl⟩

/-- No token can be read where the text has NUL, and only there. -/
theorem nul_of_error {before rest : List Char} {e : LexError} {k : CharCursor}
    (h : TokenSource.next (behind before rest) = .error e k) : ∃ tail, rest = '\x00' :: tail := by
  cases rest with
  | nil => exact nomatch h.symm.trans (next_behind_nil before)
  | cons ch tail =>
    cases hk : Terminal.ofChar? ch with
    | some kind => exact nomatch h.symm.trans (next_behind_cons hk)
    | none =>
      cases Terminal.ofChar?_eq_none_iff.1 hk
      exact ⟨tail, rfl⟩

/-- A cursor over characters stays where it is if no token can be read. -/
theorem source_of_error {c : CharCursor} {e : LexError} {k : CharCursor}
    (h : TokenSource.next c = .error e k) : k = c := by
  have h : CharCursor.nextToken c = .error e k := h
  unfold CharCursor.nextToken at h
  split at h
  · cases h
  · split at h
    · cases h
      rfl
    · cases h

theorem spells_tokenBehind {before : List Char} {ch : Char} {kind : Terminal}
    (h : Terminal.ofChar? ch = some kind) : (tokenBehind before ch kind).Spells ch :=
  ⟨h, rfl⟩

/-- A lookahead before a character stands at the token of that character. -/
theorem spells_of_heads {c : Lookahead CharCursor} {before rest : List Char} {ch : Char}
    (h : c.Heads (behind before (ch :: rest))) : c.current.Spells ch := by
  obtain ⟨h, -⟩ | ⟨ch', tail, kind, h, hk, ht, -⟩ := heads_behind h
  · cases h
  · cases h
    exact ht ▸ spells_tokenBehind hk

instance : SpellingSource CharCursor where
  isSpelled {k k' t} h := by
    have h : nextToken k = .ok t k' := h
    unfold nextToken at h
    split at h
    · cases h
      exact .inl rfl
    · split at h
      · cases h
      · next hk =>
        cases h
        exact .inr ⟨_, hk, rfl⟩

end CharCursor

open CharCursor (behind)

variable {c m : Lookahead CharCursor} {u before : List Char}

/-- What was read is the beginning of the text, and the lookahead after it stands at the rest. -/
theorem Path.exists_rest {text : List Char} (hr : Reads c u m) (hc : c.Heads (behind before text)) :
    ∃ rest, text = u ++ rest ∧ m.Heads (behind (before ++ u) rest) := by
  induction hr generalizing before text with
  | nil => exact ⟨text, rfl, by simpa using hc⟩
  | @cons c d _ ch u label taken _ ih =>
    obtain ⟨-, he⟩ | ⟨ch', tail, kind, rfl, hk, ht, hs⟩ := CharCursor.heads_behind hc
    · exact absurd (congrArg Token.kind he) taken.1
    · cases label.unique (ht ▸ CharCursor.spells_tokenBehind hk)
      have hd : d.Heads (behind (before ++ [ch]) tail) := hs ▸ taken.2
      obtain ⟨rest, rfl, hm⟩ := ih hd
      exact ⟨rest, rfl, by simpa using hm⟩

open Grammar (NulFree nulFree_cons nulFree_nil)

/-- NUL is never read. -/
theorem Path.nulFree {σ : Type} [TokenSource σ] {c m : Lookahead σ} (hr : Reads c u m) :
    NulFree u := by
  induction hr with
  | nil => exact nulFree_nil
  | @cons _ _ _ ch _ label _ _ ih =>
    have ne : ch ≠ '\x00' := by
      rintro rfl
      cases label.kind
    exact nulFree_cons.2 ⟨ne, ih⟩

/-- A text that does not begin with NUL has a first token. -/
theorem exists_heads {rest : List Char} (hr : rest.head? ≠ some '\x00') :
    ∃ c : Lookahead CharCursor, c.Heads (behind before rest) := by
  cases rest with
  | nil => exact ⟨⟨_, _⟩, CharCursor.next_behind_nil before⟩
  | cons ch rest =>
    cases hk : Terminal.ofChar? ch with
    | none => exact absurd (congrArg some (Terminal.ofChar?_eq_none_iff.1 hk)) hr
    | some kind => exact ⟨⟨_, _⟩, CharCursor.next_behind_cons hk⟩

/-- A text without NUL is read where it stands in a longer text, unless NUL comes right after it
and there is no token to read then. -/
theorem exists_reads_to {rest : List Char} (hu : NulFree u) (hr : rest.head? ≠ some '\x00')
    (hc : c.Heads (behind before (u ++ rest))) :
    ∃ m, Reads c u m ∧ m.Heads (behind (before ++ u) rest) := by
  induction u generalizing c before with
  | nil => exact ⟨c, .nil c, by simpa using hc⟩
  | cons ch u ih =>
    have hu := (nulFree_cons.1 hu).2
    obtain ⟨h, -⟩ | ⟨ch', tail, kind, h, hk, ht, hs⟩ := CharCursor.heads_behind hc
    · cases h
    · cases h
      have spells : c.current.Spells ch := ht ▸ CharCursor.spells_tokenBehind hk
      obtain ⟨d, hd⟩ : ∃ d : Lookahead CharCursor, d.Heads (behind (before ++ [ch]) (u ++ rest)) :=
        exists_heads (hu.head?_append_ne hr)
      obtain ⟨m, hm, he⟩ := ih hu hd
      exact ⟨m, .cons spells ⟨spells.kind_ne_eof, hs ▸ hd⟩ hm, by simpa using he⟩

/-- A text without NUL is read to its end. -/
theorem exists_reads (hu : NulFree u) (hc : c.Heads (behind before u)) :
    ∃ m, Reads c u m ∧ m.kind = .eof := by
  rw [← u.append_nil] at hc
  have stop : ([] : List Char).head? ≠ some '\x00' := by simp
  obtain ⟨m, hm, he⟩ := exists_reads_to hu stop hc
  obtain ⟨-, ht⟩ | ⟨_, _, _, h, -⟩ := CharCursor.heads_behind he
  · exact ⟨m, hm, congrArg Token.kind ht⟩
  · cases h

/-! ## The token after a text -/

/-- A text is split where its characters are. -/
theorem exists_append_of_toList {text : String} {v : List Char} (h : text.toList = u ++ v) :
    ∃ s t : String, text = s ++ t ∧ s.toList = u ∧ t.toList = v := by
  exact ⟨.ofList u, .ofList v, Utf8.eq_ofList_append h, String.toList_ofList,
    String.toList_ofList⟩

/-- The token that `rest` begins with where it comes right after `before`; none if it begins with
NUL. -/
def firstToken? (before rest : String) : Option Token :=
  match rest.toList with
  | [] => some (.eof before.length before.utf8ByteSize)
  | ch :: _ => (Terminal.ofChar? ch).map fun kind =>
      ⟨kind, ch.toString, before.length,
        ⟨before.utf8ByteSize, before.utf8ByteSize + ch.utf8Size⟩⟩

/-- It is the token of the lookahead between the two texts. -/
theorem firstToken?_of_heads {before rest : String}
    (hm : m.Heads (behind before.toList rest.toList)) :
    firstToken? before rest = some m.current := by
  have octets := Utf8.length_encodeAll_toList before
  obtain ⟨hr, ht⟩ | ⟨ch, tail, kind, hr, hk, ht, -⟩ := CharCursor.heads_behind hm
  · rw [firstToken?, hr, ht, octets, String.length_toList]
  · rw [firstToken?, hr, ht]
    simp only [hk, Option.map_some, CharCursor.tokenBehind, Utf8.encodeAll_append,
      List.length_append, octets, String.length_toList, Utf8.encodeAll_cons, Utf8.encodeAll_nil,
      List.append_nil, Utf8.length_encode]

end LdapFilter
