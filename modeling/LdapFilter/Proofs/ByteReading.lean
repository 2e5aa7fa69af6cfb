import LdapFilter.Proofs.Beginnings
import LdapFilter.Proofs.Spelling

/-!
# Reading octets

What the lexer does at a place in a sequence of octets depends on how the octets go on: with the
spelling of a character, with NUL, with an octet that begins no spelling, or with the beginning of
a spelling that breaks off. There is one equation for each case of `Utf8.Onset`.
-/

namespace LdapFilter

/-- Every character of more than one octet is of one kind. -/
theorem Terminal.ofChar?_of_le {ch : Char} (h : 0x80 ≤ ch.toNat) : ofChar? ch = some .utfmb := by
  have not_alpha : ¬ch.isAlpha := by
    rw [isAlpha_iff_toNat]
    omega
  have not_digit : ¬ch.isDigit := by
    intro hd
    have hd : 48 ≤ ch.toNat ∧ ch.toNat ≤ 57 := Char.isDigit_iff_toNat.1 hd
    omega
  unfold ofChar?
  rw [if_neg not_alpha, if_neg not_digit]
  split
  rotate_right
  · rw [if_neg (by omega)]
  all_goals exact absurd h (by decide)

namespace ByteCursor

theorem advanceBy_append (found rest : List UInt8) (p : Nat) :
    advanceBy found.length ⟨found ++ rest, p⟩ = ⟨rest, p + found.length⟩ := by
  induction found generalizing p with
  | nil => rfl
  | cons b found ih =>
    show advanceBy found.length ⟨found ++ rest, p + 1⟩ = _
    rw [ih, List.length_cons]
    congr 1
    omega

theorem next_nil (p : Nat) : TokenSource.next (⟨[], p⟩ : ByteCursor) = .ok (.eof p p) ⟨[], p⟩ :=
  rfl

theorem next_nul (rest : List UInt8) (p : Nat) :
    TokenSource.next (⟨0 :: rest, p⟩ : ByteCursor) =
      .error (.invalidCharacter '\x00' p p) ⟨0 :: rest, p⟩ :=
  rfl

/-- The token of the octets of a character. -/
theorem spelledToken_encode (kind : Terminal) (lead : UInt8) (ch : Char) (rest : List UInt8)
    (p : Nat) :
    spelledToken kind lead (Utf8.encode ch).length ⟨Utf8.encode ch ++ rest, p⟩ =
      .ok ⟨kind, ch.toString, p, ⟨p, p + (Utf8.encode ch).length⟩⟩
        ⟨rest, p + (Utf8.encode ch).length⟩ := by
  simp only [spelledToken, List.take_left, Utf8.scalar?_encode, advanceBy_append]

/-- The spelling of a character that is a terminal gives its token. -/
theorem next_encode {ch : Char} {kind : Terminal} (hk : Terminal.ofChar? ch = some kind)
    (rest : List UInt8) (p : Nat) :
    TokenSource.next (⟨Utf8.encode ch ++ rest, p⟩ : ByteCursor) =
      .ok ⟨kind, ch.toString, p, ⟨p, p + (Utf8.encode ch).length⟩⟩
        ⟨rest, p + (Utf8.encode ch).length⟩ := by
  obtain ⟨lead, tail, he⟩ := Utf8.exists_encode_cons ch
  rw [← spelledToken_encode kind lead]
  show nextToken _ = _
  obtain ⟨hl, hlt, rfl⟩ | ⟨hch, hn, ht⟩ := Utf8.encode_table he
  · have ascii : lead < 0x80 := UInt8.lt_iff_toNat_lt.2 hlt
    simp only [nextToken, he, List.singleton_append, if_pos ascii, Terminal.ofAscii?, hl,
      Char.ofNat_toNat, hk]
    rfl
  · cases hk.symm.trans (Terminal.ofChar?_of_le hch)
    have long : ¬lead < 0x80 := by
      intro hlt
      have hlt : lead.toNat < 0x80 := UInt8.lt_iff_toNat_lt.1 hlt
      have := Utf8.sequenceLength?_eq_some_iff.1 hn
      omega
    simp only [nextToken, he, List.cons_append, if_neg long, hn, Nat.add_sub_cancel,
      Utf8.continuations_append ht, multibyteToken, if_true, List.length_cons]

/-- NUL apart, an octet that begins no spelling is refused. -/
theorem next_invalid {lead : UInt8} (rest : List UInt8) (p : Nat) (hl : ¬lead < 0x80)
    (hn : Utf8.sequenceLength? lead = none) :
    TokenSource.next (⟨lead :: rest, p⟩ : ByteCursor) =
      .error (.invalidByte lead p) ⟨lead :: rest, p⟩ := by
  show nextToken _ = _
  simp only [nextToken, if_neg hl, hn]

/-- The beginning of a spelling that is not carried on is refused, and the cursor is left at the
octet that is missing or wrong. -/
theorem next_malformed {lead : UInt8} {length : Nat} {found left : List UInt8} (p : Nat)
    (hl : ¬lead < 0x80) (hn : Utf8.sequenceLength? lead = some length)
    (hfound : Utf8.continuations lead 1 (length - 1) (found ++ left) = found.length)
    (hlt : found.length + 1 ≠ length) :
    TokenSource.next (⟨lead :: (found ++ left), p⟩ : ByteCursor) =
      .error (.malformedSequence lead p length (p + 1 + found.length))
        ⟨left, p + (1 + found.length)⟩ := by
  have advanced := advanceBy_append (lead :: found) left p
  rw [List.length_cons, Nat.add_comm] at advanced
  show nextToken _ = _
  simp only [nextToken, if_neg hl, hn, hfound, multibyteToken, if_neg hlt]
  rw [← advanced]
  rfl

/-- A token is the end of the input or stands for the character that the octets go on with. -/
theorem cases_of_token {bytes : List UInt8} {p : Nat} {t : Token} {c : ByteCursor}
    (h : TokenSource.next (⟨bytes, p⟩ : ByteCursor) = .ok t c) :
    (bytes = [] ∧ t = .eof p p ∧ c = ⟨[], p⟩) ∨
      ∃ ch kind rest, bytes = Utf8.encode ch ++ rest ∧ Terminal.ofChar? ch = some kind ∧
        t = ⟨kind, ch.toString, p, ⟨p, p + (Utf8.encode ch).length⟩⟩ ∧
        c = ⟨rest, p + (Utf8.encode ch).length⟩ := by
  cases Utf8.onset bytes with
  | nil =>
    obtain ⟨ht, hc⟩ := EStateM.Result.ok.inj (h.symm.trans (next_nil p))
    exact .inl ⟨rfl, ht, hc⟩
  | encoded ch rest =>
    cases hk : Terminal.ofChar? ch with
    | none =>
      cases Terminal.ofChar?_eq_none_iff.1 hk
      exact nomatch h.symm.trans (next_nul rest p)
    | some kind =>
      obtain ⟨ht, hc⟩ := EStateM.Result.ok.inj (h.symm.trans (next_encode hk rest p))
      exact .inr ⟨ch, kind, rest, rfl, hk, ht, hc⟩
  | invalid rest hl hn => exact nomatch h.symm.trans (next_invalid rest p hl hn)
  | broken hl hn _ hlt hfound _ =>
    exact nomatch h.symm.trans (next_malformed p hl hn hfound (by omega))

/-- An error is at NUL, at an octet that begins no spelling, or at a spelling that breaks off; only
then the cursor has moved. -/
theorem cases_of_error {bytes : List UInt8} {p : Nat} {e : LexError} {c : ByteCursor}
    (h : TokenSource.next (⟨bytes, p⟩ : ByteCursor) = .error e c) :
    (e = .invalidCharacter '\x00' p p ∧ c = ⟨bytes, p⟩) ∨
      (∃ lead, e = .invalidByte lead p ∧ c = ⟨bytes, p⟩) ∨
      ∃ lead found left length, bytes = lead :: found ++ left ∧
        e = .malformedSequence lead p length (p + 1 + found.length) ∧
        c = ⟨left, p + (1 + found.length)⟩ := by
  cases Utf8.onset bytes with
  | nil => exact nomatch h.symm.trans (next_nil p)
  | encoded ch rest =>
    cases hk : Terminal.ofChar? ch with
    | none =>
      cases Terminal.ofChar?_eq_none_iff.1 hk
      obtain ⟨he, hc⟩ := EStateM.Result.error.inj (h.symm.trans (next_nul rest p))
      exact .inl ⟨he, hc⟩
    | some kind => exact nomatch h.symm.trans (next_encode hk rest p)
  | invalid rest hl hn =>
    obtain ⟨he, hc⟩ := EStateM.Result.error.inj (h.symm.trans (next_invalid rest p hl hn))
    exact .inr (.inl ⟨_, he, hc⟩)
  | broken hl hn _ hlt hfound _ =>
    obtain ⟨he, hc⟩ :=
      EStateM.Result.error.inj (h.symm.trans (next_malformed p hl hn hfound (by omega)))
    exact .inr (.inr ⟨_, _, _, _, rfl, he, hc⟩)

instance : SpellingSource ByteCursor where
  isSpelled {k k' t} h := by
    obtain ⟨-, rfl, -⟩ | ⟨ch, kind, rest, -, hk, rfl, -⟩ := cases_of_token h
    · exact .inl rfl
    · exact .inr ⟨ch, hk, rfl⟩

end ByteCursor

end LdapFilter
