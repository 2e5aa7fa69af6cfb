import LdapFilter.Proofs.Encoding

/-!
# Decoding and spelling

Decoding takes the spelling of one character after another off a sequence of octets. As no spelling
is the beginning of another there is at most one to take (`uncons?_encode_append`), so a sequence is
decoded exactly if it spells a text, and then to the characters of that text. Where characters are
replaced because they are not spelled, those in front of them are decoded all the same.
-/

namespace LdapFilter.Utf8

/-- The spelling of a character that the octets begin with is the one that is taken. -/
theorem uncons?_encode_append (c : Char) (rest : List UInt8) :
    uncons? (encode c ++ rest) = some (c, rest) := by
  cases h : uncons? (encode c ++ rest) with
  | some p =>
    obtain ⟨d, rest'⟩ := p
    obtain ⟨rfl, rfl⟩ := eq_of_encode_append (eq_of_uncons? h)
    rfl
  | none =>
    -- beginnings of all lengths are tried, and the one of this length is a spelling
    have lengths : (encode c).length ∈ [1, 2, 3, 4] := by
      have := c.utf8Size_pos
      have := c.utf8Size_le_four
      rw [length_encode]
      simp only [List.mem_cons, List.not_mem_nil, or_false]
      omega
    have none := List.findSome?_eq_none_iff.1 h _ lengths
    rw [List.take_left, scalar?_encode] at none
    cases none

theorem decodePrefix_nil : decodePrefix [] = ([], []) := by
  unfold decodePrefix
  rfl

theorem decodePrefix_encode_append (c : Char) (rest : List UInt8) :
    decodePrefix (encode c ++ rest) = (c :: (decodePrefix rest).1, (decodePrefix rest).2) := by
  rw [decodePrefix]
  split
  · next d rest' h =>
    rw [uncons?_encode_append] at h
    cases h
    rfl
  · next h =>
    rw [uncons?_encode_append] at h
    cases h

theorem decodePrefix_encodeAll (cs : List Char) : decodePrefix (encodeAll cs) = (cs, []) := by
  induction cs with
  | nil => exact decodePrefix_nil
  | cons c cs ih => rw [encodeAll_cons, decodePrefix_encode_append, ih]

/-- What was decoded spells the octets that were taken. -/
theorem encodeAll_decodePrefix_append (bytes : List UInt8) :
    encodeAll (decodePrefix bytes).1 ++ (decodePrefix bytes).2 = bytes := by
  fun_induction decodePrefix bytes with
  | case1 bytes c rest h _ ih => rw [encodeAll_cons, List.append_assoc, ih, eq_of_uncons? h]
  | case2 bytes h => rfl

/-- Octets are decoded exactly if they spell a text, and then to it. -/
theorem decode?_eq_some_iff {bytes : List UInt8} {cs : List Char} :
    decode? bytes = some cs ↔ bytes = encodeAll cs := by
  constructor
  · intro h
    have taken := encodeAll_decodePrefix_append bytes
    unfold decode? at h
    split at h
    · next ds hp =>
      cases h
      rw [hp, List.append_nil] at taken
      exact taken.symm
    · cases h
  · rintro rfl
    simp only [decode?, decodePrefix_encodeAll]

/-- The octets of a text are decoded to it. -/
theorem decode?_encodeAll (cs : List Char) : decode? (encodeAll cs) = some cs :=
  decode?_eq_some_iff.2 rfl

/-- The spelling of a character is decoded, whatever comes behind it. -/
theorem decodeLossy_encode_append (c : Char) (rest : List UInt8) :
    decodeLossy (encode c ++ rest) = c :: decodeLossy rest := by
  obtain ⟨lead, tail, he⟩ := exists_encode_cons c
  have taken := uncons?_encode_append c rest
  rw [he, List.cons_append] at taken ⊢
  rw [decodeLossy]
  split
  · next d rest' h =>
    cases h.symm.trans taken
    rfl
  · next h =>
    cases h.symm.trans taken

/-- The characters that are spelled at the beginning are decoded. -/
theorem decodeLossy_encodeAll_append (cs : List Char) (rest : List UInt8) :
    decodeLossy (encodeAll cs ++ rest) = cs ++ decodeLossy rest := by
  induction cs with
  | nil => rfl
  | cons c cs ih =>
    rw [encodeAll_cons, List.append_assoc, decodeLossy_encode_append, ih, List.cons_append]

end LdapFilter.Utf8
