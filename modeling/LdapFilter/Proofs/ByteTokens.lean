import LdapFilter.Proofs.ByteReading
import LdapFilter.Proofs.NulFree

/-!
# The tokens of a sequence of octets

The lexer gives one token for each character as long as the octets are spellings of characters
other than NUL. Where they are not to their end, it stops after the longest part that is, and its
error says how the octets go on there.
-/

namespace LdapFilter

open Grammar (NulFree)

/-! ## Reading a source to its end -/

namespace TokenSource

variable {σ : Type} [TokenSource σ] {s s' : σ} {t : Token}

/-- The first token and then the rest, or the failure. -/
theorem readAll_eq (s : σ) :
    readAll s =
      match next s with
      | .ok t s' => if t.kind = .eof then ([t], none) else (t :: (readAll s').1, (readAll s').2)
      | .error e _ => ([], some e) := by
  rw [readAll]
  split
  · next h => simp only [h, dite_eq_ite]
  · next h => simp only [h]

theorem tokens_of_eof (h : next s = .ok t s') (ht : t.kind = .eof) : tokens s = .ok [t] := by
  simp only [tokens, readAll_eq s, h, if_pos ht]

theorem tokens_of_ok (h : next s = .ok t s') (ht : t.kind ≠ .eof) :
    tokens s = (tokens s').map (t :: ·) := by
  simp only [tokens, readAll_eq s, h, if_neg ht]
  obtain ⟨ts, _ | e⟩ := readAll s' <;> rfl

theorem tokens_of_error {e : LexError} (h : next s = .error e s') : tokens s = .error e := by
  simp only [tokens, readAll_eq s, h]

end TokenSource

/-! ## Texts in octets -/

namespace Utf8

/-- The octets are the spellings of characters other than NUL. -/
def IsText (bytes : List UInt8) : Prop :=
  ∃ cs, NulFree cs ∧ encodeAll cs = bytes

/-- The octets do not go on with the spelling of a character other than NUL. -/
def Stops (left : List UInt8) : Prop :=
  ∀ ch rest, left = encode ch ++ rest → ch = '\x00'

/-- Where the octets stop to be a text, no longer part of them is one. -/
theorem length_le_of_stops {cs ds : List Char} {left rest : List UInt8} (hs : Stops left)
    (hd : NulFree ds) (h : encodeAll cs ++ left = encodeAll ds ++ rest) :
    (encodeAll ds).length ≤ (encodeAll cs).length := by
  induction ds generalizing cs with
  | nil => exact Nat.zero_le _
  | cons d ds ih =>
    obtain ⟨hne, hds⟩ := Grammar.nulFree_cons.1 hd
    cases cs with
    | nil =>
      have h : left = encode d ++ (encodeAll ds ++ rest) := by simpa using h
      exact absurd (hs d _ h) hne
    | cons c cs =>
      have h : encode c ++ (encodeAll cs ++ left) = encode d ++ (encodeAll ds ++ rest) := by
        simpa using h
      obtain ⟨rfl, hrest⟩ := eq_of_encode_append h
      have := ih hds hrest
      simp only [encodeAll_cons, List.length_append]
      omega

end Utf8

/-! ## What the lexer makes of octets -/

open TokenSource (tokens tokens_of_eof tokens_of_ok tokens_of_error)
open Utf8 (IsText Stops Begins)

/-- A token whose text is spelled by the octets of its character. -/
def Token.SpellsOctets (t : Token) (ch : Char) : Prop :=
  t.Spells ch ∧ Utf8.encodeAll t.text.toList = Utf8.encode ch

namespace ByteCursor

/-- How the lexer ends at octets that do not go on with the spelling of a character other than
NUL. -/
theorem next_of_stops {left : List UInt8} (hs : Stops left) (p : Nat) :
    (left = [] ∧ TokenSource.next (⟨left, p⟩ : ByteCursor) = .ok (.eof p p) ⟨left, p⟩) ∨
      left ≠ [] ∧ ∃ e k, TokenSource.next (⟨left, p⟩ : ByteCursor) = .error e k := by
  cases Utf8.onset left with
  | nil => exact .inl ⟨rfl, next_nil p⟩
  | encoded ch rest =>
    cases hs ch rest rfl
    exact .inr ⟨nofun, _, _, next_nul rest p⟩
  | invalid rest hl hn => exact .inr ⟨nofun, _, _, next_invalid rest p hl hn⟩
  | broken hl hn _ hlt hfound _ =>
    exact .inr ⟨nofun, _, _, next_malformed p hl hn hfound (by omega)⟩

/-- The longest part of the octets that is a text gives its tokens, and what follows it decides
how the lexer ends. -/
theorem tokens_cases (bytes : List UInt8) (p : Nat) :
    ∃ cs left ts, NulFree cs ∧ bytes = Utf8.encodeAll cs ++ left ∧ Stops left ∧
      List.Forall₂ Token.SpellsOctets ts cs ∧
      ((left = [] ∧ tokens (⟨bytes, p⟩ : ByteCursor) =
          .ok (ts ++ [.eof (p + bytes.length) (p + bytes.length)])) ∨
        left ≠ [] ∧ ∃ e k, tokens (⟨bytes, p⟩ : ByteCursor) = .error e ∧
          TokenSource.next (⟨left, p + (Utf8.encodeAll cs).length⟩ : ByteCursor) = .error e k) := by
  -- each character leaves fewer octets
  induction hn : bytes.length using Nat.strongRecOn generalizing bytes p with
  | ind n ih =>
    subst hn
    by_cases hs : Stops bytes
    · refine ⟨[], bytes, [], by simp, rfl, hs, .nil, ?_⟩
      obtain ⟨rfl, h⟩ | ⟨hne, e, k, h⟩ := next_of_stops hs p
      · exact .inl ⟨rfl, tokens_of_eof h rfl⟩
      · exact .inr ⟨hne, e, k, tokens_of_error h, h⟩
    · obtain ⟨ch, rest, rfl, hch⟩ : ∃ ch rest, bytes = Utf8.encode ch ++ rest ∧ ch ≠ '\x00' := by
        simpa [Stops] using hs
      obtain ⟨kind, hk⟩ := Terminal.exists_ofChar? hch
      have shorter : rest.length < (Utf8.encode ch ++ rest).length := by
        have := Utf8.length_encode ch
        have := ch.utf8Size_pos
        rw [List.length_append]
        omega
      obtain ⟨cs, left, ts, hcs, rfl, hleft, hts, hend⟩ :=
        ih _ shorter rest (p + (Utf8.encode ch).length) rfl
      have step := next_encode hk (Utf8.encodeAll cs ++ left) p
      have spells : Token.Spells
          ⟨kind, ch.toString, p, ⟨p, p + (Utf8.encode ch).length⟩⟩ ch := ⟨hk, rfl⟩
      have all := tokens_of_ok step spells.kind_ne_eof
      refine ⟨ch :: cs, left, _ :: ts, by simp [hch, hcs], by simp, hleft,
        .cons ⟨spells, ?_⟩ hts, ?_⟩
      · rw [spells.toList_text]
        simp
      · obtain ⟨rfl, h⟩ | ⟨hne, e, k, h, hk⟩ := hend
        · have total : p + (Utf8.encode ch ++ (Utf8.encodeAll cs ++ [])).length =
              p + (Utf8.encode ch).length + (Utf8.encodeAll cs ++ []).length := by
            rw [List.length_append, Nat.add_assoc]
          exact .inl ⟨rfl, by rw [all, h, total]; rfl⟩
        · refine .inr ⟨hne, e, k, by rw [all, h]; rfl, ?_⟩
          rwa [Utf8.encodeAll_cons, List.length_append, ← Nat.add_assoc]

end ByteCursor

/-- What an error of the lexer says of the octets that it stopped in. -/
structure LexError.Explains (bytes : List UInt8) (e : LexError) : Prop where
  /-- The octets before the offset are the longest part that is a text. -/
  longest : e.offset ≤ bytes.length ∧ IsText (bytes.take e.offset) ∧
    ∀ n ≤ bytes.length, IsText (bytes.take n) → n ≤ e.offset
  nul_iff : (∃ ch position offset, e = .invalidCharacter ch position offset) ↔
    bytes[e.offset]? = some 0
  /-- The octet at the offset begins no spelling. -/
  invalid_iff : (∃ b offset, e = .invalidByte b offset) ↔
    ∃ b, bytes[e.offset]? = some b ∧ ¬Begins [b]
  /-- A spelling begins at the offset and is not finished, and no spelling goes on with the octet at
  the fault. -/
  malformed : ∀ lead offset length fault, e = .malformedSequence lead offset length fault →
    bytes[offset]? = some lead ∧
    (∀ c, (Utf8.encode c).head? = some lead → (Utf8.encode c).length = length) ∧
    offset < fault ∧ fault ≤ bytes.length ∧
    (∃ c rest, rest ≠ [] ∧ Utf8.encode c = bytes.extract offset fault ++ rest) ∧
    (fault = bytes.length ∨ ¬Begins (bytes.extract offset (fault + 1)))

theorem extract_append {α : Type} (s t u : List α) :
    (s ++ (t ++ u)).extract s.length (s.length + t.length) = t := by
  simp

namespace Utf8

variable {lead : UInt8} {length : Nat} {found after : List UInt8}

/-- What is found of a spelling that breaks off begins one that is longer. -/
theorem exists_encode_of_broken (before : List UInt8) (hn : sequenceLength? lead = some length)
    (ht : Continues lead 1 found) (hlt : found.length + 1 < length) :
    ∃ c rest, rest ≠ [] ∧ encode c = (before ++ lead :: (found ++ after)).extract before.length
      (before.length + 1 + found.length) ++ rest := by
  obtain ⟨c, rest, hc⟩ := exists_encode_append hn ht (by omega)
  refine ⟨c, rest, ?_, ?_⟩
  · rintro rfl
    have := length_of_begins hn hc
    rw [hc] at this
    simp at this
    omega
  · have slice := extract_append before (lead :: found) after
    rw [List.length_cons, Nat.add_comm found.length, ← Nat.add_assoc] at slice
    exact hc.trans (congrArg (· ++ rest) slice.symm)

/-- After what is found of a spelling that breaks off, the octets end or go on as none does. -/
theorem stop_of_broken (before : List UInt8)
    (stop : after = [] ∨
      ∃ b rest, after = b :: rest ∧ ¬acceptsContinuation lead (1 + found.length) b) :
    before.length + 1 + found.length = (before ++ lead :: (found ++ after)).length ∨
      ¬Begins ((before ++ lead :: (found ++ after)).extract before.length
        (before.length + 1 + found.length + 1)) := by
  obtain rfl | ⟨b, after, rfl, hstop⟩ := stop
  · left
    simp only [List.length_append, List.length_cons, List.length_nil]
    omega
  · right
    have slice := extract_append before (lead :: found ++ [b]) after
    rw [List.append_assoc, List.length_append, List.length_cons, Nat.add_comm found.length,
      ← Nat.add_assoc, ← Nat.add_assoc] at slice
    have slice : (before ++ lead :: (found ++ b :: after)).extract before.length
        (before.length + 1 + found.length + 1) = lead :: found ++ [b] := slice
    rw [slice]
    exact not_begins_of_stop hstop

end Utf8

/-- The part of the octets before the place where they stop to be a text is the longest. -/
theorem longest_of_stops {cs : List Char} {left : List UInt8} (hcs : NulFree cs)
    (hs : Stops left) :
    (Utf8.encodeAll cs).length ≤ (Utf8.encodeAll cs ++ left).length ∧
      IsText ((Utf8.encodeAll cs ++ left).take (Utf8.encodeAll cs).length) ∧
      ∀ n ≤ (Utf8.encodeAll cs ++ left).length,
        IsText ((Utf8.encodeAll cs ++ left).take n) → n ≤ (Utf8.encodeAll cs).length := by
  refine ⟨by simp, ⟨cs, hcs, by simp⟩, ?_⟩
  rintro n hn ⟨ds, hds, hd⟩
  have split := (List.take_append_drop n (Utf8.encodeAll cs ++ left)).symm
  rw [← hd] at split
  have := Utf8.length_le_of_stops hs hds split
  rw [hd, List.length_take, Nat.min_eq_left hn] at this
  exact this

theorem ByteCursor.explains {cs : List Char} {left : List UInt8} {e : LexError} {k : ByteCursor}
    (hcs : NulFree cs) (hs : Stops left)
    (h : TokenSource.next (⟨left, (Utf8.encodeAll cs).length⟩ : ByteCursor) = .error e k) :
    e.Explains (Utf8.encodeAll cs ++ left) := by
  have longest := longest_of_stops hcs hs
  have first (b : UInt8) (rest : List UInt8) :
      (Utf8.encodeAll cs ++ b :: rest)[(Utf8.encodeAll cs).length]? = some b := by
    simp
  cases Utf8.onset left with
  | nil => exact nomatch h.symm.trans (next_nil _)
  | encoded ch rest =>
    cases hs ch rest rfl
    obtain ⟨rfl, -⟩ := EStateM.Result.error.inj (h.symm.trans (next_nul rest _))
    have zero : Begins [0] := ⟨'\x00', [], rfl⟩
    have at_offset := first 0 rest
    refine ⟨longest, ⟨fun _ => at_offset, fun _ => ⟨_, _, _, rfl⟩⟩, ⟨nofun, ?_⟩, nofun⟩
    rintro ⟨b, hb, hnot⟩
    cases at_offset.symm.trans hb
    exact absurd zero hnot
  | @invalid lead rest hl hn =>
    obtain ⟨rfl, -⟩ := EStateM.Result.error.inj (h.symm.trans (next_invalid rest _ hl hn))
    have none_begin := Utf8.not_begins_of_none hl hn
    have at_offset := first lead rest
    refine ⟨longest, ⟨nofun, ?_⟩, ⟨?_, fun _ => ⟨_, _, rfl⟩⟩, nofun⟩
    · intro h0
      cases at_offset.symm.trans h0
      exact absurd (by decide) hl
    · intro _
      exact ⟨lead, at_offset, none_begin⟩
  | @broken lead length found after hl hn ht hlt hfound stop =>
    obtain ⟨rfl, -⟩ :=
      EStateM.Result.error.inj (h.symm.trans (next_malformed _ hl hn hfound (by omega)))
    have at_offset := first lead (found ++ after)
    refine ⟨longest, ⟨nofun, ?_⟩, ⟨nofun, ?_⟩, ?_⟩
    · intro h0
      cases at_offset.symm.trans h0
      exact absurd (by decide) hl
    · rintro ⟨b, hb, hnot⟩
      cases at_offset.symm.trans hb
      obtain ⟨c, rest, hc⟩ := Utf8.exists_encode_append hn ht (by omega)
      exact absurd ⟨c, found ++ rest, hc⟩ hnot
    · rintro lead' offset length' fault he
      cases he
      have total : (Utf8.encodeAll cs ++ lead :: (found ++ after)).length =
          (Utf8.encodeAll cs).length + 1 + found.length + after.length := by
        simp only [List.length_append, List.length_cons]
        omega
      have same_length (d : Char) (hd : (Utf8.encode d).head? = some lead) :
          (Utf8.encode d).length = length := by
        obtain ⟨b, tail, hb⟩ := Utf8.exists_encode_cons d
        rw [hb] at hd
        cases hd
        exact Utf8.length_of_begins hn hb
      exact ⟨at_offset, same_length, by omega, by omega,
        Utf8.exists_encode_of_broken _ hn ht hlt, Utf8.stop_of_broken _ stop⟩

/-- The lexer never takes octets for the spelling of a character and then fails to decode them. -/
theorem ByteCursor.next_ne_undecodable (c c' : ByteCursor) (lead : UInt8) (length : Nat) :
    TokenSource.next c ≠ .error (.malformedSequence lead c.position length c.position) c' := by
  intro h
  obtain ⟨he, -⟩ | ⟨_, he, -⟩ | ⟨_, found, _, _, -, he, -⟩ := ByteCursor.cases_of_error h
  · cases he
  · cases he
  · have fault := (LexError.malformedSequence.inj he).2.2.2
    omega

/-- **The lexer of octets.** It gives the tokens of exactly the octets that are the spellings of
characters other than NUL, one for each character; any other octets it explains. -/
theorem tokenizeBytes_spec (bytes : List UInt8) :
    ((∃ ts, tokenizeBytes bytes = .ok ts) ↔ IsText bytes) ∧
    (∀ ts, tokenizeBytes bytes = .ok ts → ∃ cs us, NulFree cs ∧ Utf8.encodeAll cs = bytes ∧
      List.Forall₂ Token.SpellsOctets us cs ∧ ts = us ++ [.eof bytes.length bytes.length]) ∧
    (∀ e, tokenizeBytes bytes = .error e → e.Explains bytes) ∧
    ∀ (c c' : ByteCursor) lead length,
      TokenSource.next c ≠ .error (.malformedSequence lead c.position length c.position) c' := by
  obtain ⟨cs, left, ts, hcs, hbytes, hleft, hts, hend⟩ := ByteCursor.tokens_cases bytes 0
  have run : tokenizeBytes bytes = tokens (⟨bytes, 0⟩ : ByteCursor) := rfl
  rw [run]
  simp only [Nat.zero_add] at hend
  refine ⟨?_, ?_, ?_, ByteCursor.next_ne_undecodable⟩
  · obtain ⟨rfl, h⟩ | ⟨hne, e, k, h, -⟩ := hend
    · exact ⟨fun _ => ⟨cs, hcs, by simp [hbytes]⟩, fun _ => ⟨_, h⟩⟩
    · constructor
      · rintro ⟨_, hok⟩
        cases h.symm.trans hok
      · -- a text would be longer than the longest part that is one
        rintro ⟨ds, hds, hd⟩
        have hle := Utf8.length_le_of_stops hleft hds
          ((hbytes.symm.trans hd.symm).trans (List.append_nil _).symm)
        have hlt := List.length_pos_iff.2 hne
        have := congrArg List.length hbytes
        rw [hd, List.length_append] at *
        omega
  · intro us hok
    obtain ⟨rfl, h⟩ | ⟨-, e, k, h, -⟩ := hend
    · cases h.symm.trans hok
      exact ⟨cs, ts, hcs, by simp [hbytes], hts, rfl⟩
    · cases h.symm.trans hok
  · intro e herr
    obtain ⟨rfl, h⟩ | ⟨-, e', k, h, hk⟩ := hend
    · cases h.symm.trans herr
    · cases h.symm.trans herr
      rw [hbytes]
      exact ByteCursor.explains hcs hleft hk

/-- A spelling of three octets of which the last is missing. -/
theorem tokenizeBytes_spec_truncated :
    (LexError.malformedSequence 0xE2 1 3 3).Explains [0x61, 0xE2, 0x82] :=
  (tokenizeBytes_spec [0x61, 0xE2, 0x82]).2.2.1 _ (by decide +kernel)

end LdapFilter
