import LdapFilter.Proofs.Encoding

/-!
# Beginnings of spellings

What passes the tables up to some octet can be completed to a spelling (`exists_encode_append`), so
the scan of a sequence stops exactly where no spelling goes on. That leaves four ways in which a
sequence of octets can go on, the four of `Onset`.
-/

namespace LdapFilter.Utf8

theorem Continues.append_right {lead : UInt8} {index : Nat} {s t : List UInt8}
    (h : Continues lead index (s ++ t)) : Continues lead (index + s.length) t := by
  induction s generalizing index with
  | nil => exact h
  | cons b s ih =>
    rw [List.length_cons, show index + (s.length + 1) = index + 1 + s.length by omega]
    exact ih h.2

theorem Continues.append {lead : UInt8} {index : Nat} {s t : List UInt8}
    (h : Continues lead index s) (h' : Continues lead (index + s.length) t) :
    Continues lead index (s ++ t) := by
  induction s generalizing index with
  | nil => simpa using h'
  | cons b s ih =>
    refine ⟨h.1, ih h.2 ?_⟩
    rwa [List.length_cons, show index + (s.length + 1) = index + 1 + s.length by omega] at h'

theorem continues_replicate {lead : UInt8} {index : Nat} (hi : 1 < index) (n : Nat) :
    Continues lead index (List.replicate n 0x80) := by
  induction n generalizing index with
  | zero => trivial
  | succ n ih =>
    refine ⟨?_, ih (by omega)⟩
    rw [acceptsContinuation_succ_iff (by omega)]
    decide

/-- Some octet may come right after any octet. -/
theorem exists_acceptsContinuation (lead : UInt8) : ∃ b, acceptsContinuation lead 1 b := by
  obtain ⟨h, _⟩ | ⟨h, _⟩ | ⟨h, _⟩ | ⟨h, _⟩ | ⟨h1, h2, h3, h4, _⟩ := secondRange_forms lead
  · exact ⟨0xA0, acceptsContinuation_one_iff.2 (by simp [h])⟩
  · exact ⟨0x80, acceptsContinuation_one_iff.2 (by simp [h])⟩
  · exact ⟨0x90, acceptsContinuation_one_iff.2 (by simp [h])⟩
  · exact ⟨0x80, acceptsContinuation_one_iff.2 (by simp [h])⟩
  · exact ⟨0x80, acceptsContinuation_one_iff.2 (by simp [h1, h2, h3, h4])⟩

/-- What passes the tables without being complete can be completed to a spelling. -/
theorem exists_encode_append {lead : UInt8} {tail : List UInt8} {n : Nat}
    (hl : sequenceLength? lead = some n) (ht : Continues lead 1 tail) (hlt : tail.length < n) :
    ∃ c rest, encode c = lead :: tail ++ rest := by
  have two : 2 ≤ n := by
    obtain h | h | h := sequenceLength?_eq_some_iff.1 hl <;> omega
  obtain ⟨rest, hrest, hlen⟩ : ∃ rest, Continues lead 1 (tail ++ rest) ∧
      (tail ++ rest).length + 1 = n := by
    cases tail with
    | nil =>
      obtain ⟨b, hb⟩ := exists_acceptsContinuation lead
      refine ⟨b :: List.replicate (n - 2) 0x80, ⟨hb, continues_replicate (by omega) _⟩, ?_⟩
      simp only [List.nil_append, List.length_cons, List.length_replicate]
      omega
    | cons b tail =>
      rw [List.length_cons] at hlt
      refine ⟨List.replicate (n - (tail.length + 2)) 0x80, ?_, ?_⟩
      · exact ht.append (continues_replicate (by simp) _)
      · simp only [List.length_append, List.length_cons, List.length_replicate]
        omega
  obtain ⟨c, hc⟩ := exists_encode (hlen ▸ hl) hrest
  exact ⟨c, rest, by simpa using hc⟩

/-- The octets are the beginning of a spelling, or all of it. -/
def Begins (s : List UInt8) : Prop :=
  ∃ c rest, encode c = s ++ rest

/-- No spelling begins with an octet that the tables do not know. -/
theorem not_begins_of_none {lead : UInt8} (hl : ¬lead < 0x80) (hn : sequenceLength? lead = none) :
    ¬Begins [lead] := by
  rintro ⟨c, rest, h⟩
  obtain ⟨_, hlt, _⟩ | ⟨_, hn', _⟩ := encode_table h
  · exact hl (UInt8.lt_iff_toNat_lt.2 hlt)
  · cases hn.symm.trans hn'

/-- An octet of the tables fixes how long the spellings are that begin with it. -/
theorem length_of_begins {c : Char} {lead : UInt8} {rest : List UInt8} {n : Nat}
    (hn : sequenceLength? lead = some n) (h : encode c = lead :: rest) :
    (encode c).length = n := by
  obtain ⟨_, hlt, _⟩ | ⟨_, hn', _⟩ := encode_table h
  · rw [sequenceLength?_eq_none_iff.2 (.inl (by omega))] at hn
    cases hn
  · rw [h]
    exact Option.some.inj (hn'.symm.trans hn)

/-- No spelling goes on with an octet that the tables do not accept. -/
theorem not_begins_of_stop {lead b : UInt8} {found : List UInt8}
    (h : ¬acceptsContinuation lead (1 + found.length) b) : ¬Begins (lead :: found ++ [b]) := by
  rintro ⟨c, rest, he⟩
  have he : encode c = lead :: (found ++ b :: rest) := by simpa using he
  obtain ⟨_, _, ht⟩ | ⟨_, _, ht⟩ := encode_table he
  · simp at ht
  · exact h ht.append_right.1

/-- The octets that continue a sequence are found up to the first that does not. -/
theorem continuations_spec (lead : UInt8) (index needed : Nat) (rest : List UInt8) :
    ∃ found left, rest = found ++ left ∧ continuations lead index needed rest = found.length ∧
      found.length ≤ needed ∧ Continues lead index found ∧
      (found.length = needed ∨ left = [] ∨
        ∃ b l, left = b :: l ∧ ¬acceptsContinuation lead (index + found.length) b) := by
  fun_induction continuations lead index needed rest with
  | case1 => exact ⟨[], _, rfl, rfl, Nat.zero_le _, trivial, .inl rfl⟩
  | case2 => exact ⟨[], [], rfl, rfl, Nat.zero_le _, trivial, .inr (.inl rfl)⟩
  | case3 index needed b rest hb ih =>
    obtain ⟨found, left, rfl, hk, hle, hc, hend⟩ := ih
    refine ⟨b :: found, left, rfl, ?_, ?_, ⟨hb, hc⟩, ?_⟩
    · rw [hk, List.length_cons]
      omega
    · rw [List.length_cons]
      omega
    · rw [List.length_cons, show index + (found.length + 1) = index + 1 + found.length by omega]
      exact hend.imp_left (by omega)
  | case4 index needed b rest hb =>
    exact ⟨[], b :: rest, rfl, rfl, Nat.zero_le _, trivial, .inr (.inr ⟨b, rest, rfl, hb⟩)⟩

theorem continuations_append {lead : UInt8} {index : Nat} {found : List UInt8}
    (h : Continues lead index found) (left : List UInt8) :
    continuations lead index found.length (found ++ left) = found.length := by
  induction found generalizing index with
  | nil => rw [List.length_nil, continuations]
  | cons b found ih =>
    rw [List.length_cons, List.cons_append, continuations, if_pos h.1, ih h.2]
    omega

/-- How a sequence of octets goes on. -/
inductive Onset : List UInt8 → Prop where
  | nil : Onset []
  /-- With a spelling. -/
  | encoded (ch : Char) (rest : List UInt8) : Onset (encode ch ++ rest)
  /-- With an octet that begins no spelling. -/
  | invalid {lead : UInt8} (rest : List UInt8) (hl : ¬lead < 0x80)
      (hn : sequenceLength? lead = none) : Onset (lead :: rest)
  /-- With the beginning of a spelling, and not with all of it. -/
  | broken {lead : UInt8} {length : Nat} {found left : List UInt8} (hl : ¬lead < 0x80)
      (hn : sequenceLength? lead = some length) (ht : Continues lead 1 found)
      (hlt : found.length + 1 < length)
      (hfound : continuations lead 1 (length - 1) (found ++ left) = found.length)
      (stop : left = [] ∨
        ∃ b rest, left = b :: rest ∧ ¬acceptsContinuation lead (1 + found.length) b) :
      Onset (lead :: (found ++ left))

theorem onset (bytes : List UInt8) : Onset bytes := by
  cases bytes with
  | nil => exact .nil
  | cons lead rest =>
    by_cases hl : lead < 0x80
    · obtain ⟨c, hc⟩ := exists_encode_of_lt hl
      have := Onset.encoded c rest
      rwa [hc] at this
    cases hn : sequenceLength? lead with
    | none => exact .invalid rest hl hn
    | some length =>
      obtain ⟨found, left, rfl, hk, hle, ht, hstop⟩ := continuations_spec lead 1 (length - 1) rest
      have two : 2 ≤ length := by
        obtain h | h | h := sequenceLength?_eq_some_iff.1 hn <;> omega
      by_cases hfull : found.length + 1 = length
      · obtain ⟨c, hc⟩ := exists_encode (hfull ▸ hn) ht
        have := Onset.encoded c left
        rwa [hc] at this
      · exact .broken hl hn ht (by omega) hk (hstop.resolve_left (by omega))

end LdapFilter.Utf8
