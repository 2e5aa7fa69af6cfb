import LdapFilter.Proofs.JsonText

/-!
# Reading back values

Every value is read back from what is written for it on one line (`parse?_compact`), whatever its
strings are and however deep it is. What is written for a value says by its first character how to
read it, and that character is no blank (`exists_write_cons`); so the reader never skips one.

The induction is on values, by `ReadsBack`: a value is read off the front of a text, if what comes
behind it does not go on with a number and twice as many steps are left as the value has characters.
For an array or an object this follows from its parts, which a second induction takes one by one.
-/

namespace LdapFilter.Json

variable {c : Char} {fuel : Nat} {rest : List Char}

/-! ## First characters -/

/-- The character can be the first of a written value. -/
def BeginsValue (c : Char) : Prop :=
  c.isDigit ∨ c ∈ ['-', 'n', 't', 'f', '"', '[', '{']

/-- A first character of a value is none of the others. -/
theorem BeginsValue.ne (h : BeginsValue c) {other : Char}
    (ho : other ∈ [' ', '\n', '\t', '\r', ']']) : c ≠ other := by
  have others : ∀ o ∈ [' ', '\n', '\t', '\r', ']'],
      ¬(o.isDigit ∨ o ∈ ['-', 'n', 't', 'f', '"', '[', '{']) := by simp
  rintro rfl
  exact others c ho h

/-- Before a character that is no blank there is nothing to skip. -/
theorem skipBlanks_cons (h : c ∉ [' ', '\n', '\t', '\r']) (text : List Char) :
    skipBlanks (c :: text) = c :: text := by
  simp only [List.mem_cons, List.not_mem_nil, or_false, not_or] at h
  simp [skipBlanks, h]

theorem BeginsValue.skipBlanks_cons (h : BeginsValue c) (text : List Char) :
    skipBlanks (c :: text) = c :: text := by
  refine Json.skipBlanks_cons (fun blank => ?_) text
  have among : c ∈ [' ', '\n', '\t', '\r', ']'] := List.mem_append_left [']'] blank
  exact h.ne among rfl

/-- What is written for a value begins with a character that tells of a value. -/
theorem exists_write_cons (j : Json) : ∃ c text, write j = c :: text ∧ BeginsValue c := by
  cases j with
  | null => exact ⟨'n', _, rfl, .inr (by decide)⟩
  | bool b =>
    cases b
    · exact ⟨'f', _, rfl, .inr (by decide)⟩
    · exact ⟨'t', _, rfl, .inr (by decide)⟩
  | natural n =>
    obtain ⟨c, digits, h, digit⟩ := exists_toDigits_digit n
    exact ⟨c, digits, h, .inl digit⟩
  | otherNumber => exact ⟨'-', _, rfl, .inr (by decide)⟩
  | string t =>
    obtain ⟨body, h, -⟩ := exists_writeText t
    exact ⟨'"', body, h, .inr (by decide)⟩
  | array items => exact ⟨'[', _, write_array items, .inr (by decide)⟩
  | object members => exact ⟨'{', _, write_object members, .inr (by decide)⟩

/-! ## Values without parts -/

/-- A value is read off the front of a text, whatever steps are left beyond those it takes. -/
def ReadsBack (j : Json) : Prop :=
  ∀ ⦃fuel rest⦄, 2 * (write j).length ≤ fuel → EndsNumber rest →
    readValue fuel (write j ++ rest) = some (j, rest)

/-- It takes a step at least to read a value. -/
theorem readsBack_of_succ {j : Json} (h : ∀ ⦃fuel rest⦄, 2 * (write j).length ≤ fuel + 1 →
    EndsNumber rest → readValue (fuel + 1) (write j ++ rest) = some (j, rest)) : ReadsBack j := by
  intro fuel rest hf hr
  cases fuel with
  | zero =>
    obtain ⟨c, text, hw, -⟩ := exists_write_cons j
    rw [hw, List.length_cons] at hf
    omega
  | succ fuel => exact h hf hr

/-- A digit or a minus sign is the beginning of a number. -/
theorem readValue_number (h : c.isDigit ∨ c = '-') (text : List Char) :
    readValue (fuel + 1) (c :: text) = readNumber (c :: text) := by
  have begins : BeginsValue c := h.imp_right fun hc => by simp [hc]
  have other : ∀ o ∈ ['n', 't', 'f', '"', '[', '{'], c ≠ o := by
    rintro o ho rfl
    have others : ∀ o ∈ ['n', 't', 'f', '"', '[', '{'], ¬(o.isDigit ∨ o = '-') := by simp
    exact others c ho h
  simp only [List.forall_mem_cons, List.not_mem_nil, false_implies, implies_true, and_true] at other
  obtain ⟨n, t, f, quote, bracket, brace⟩ := other
  rw [readValue, begins.skipBlanks_cons]
  simp [n, t, f, quote, bracket, brace]

theorem readsBack_natural (n : Nat) : ReadsBack (natural n) := by
  refine readsBack_of_succ fun fuel rest _ hr => ?_
  obtain ⟨c, digits, h, digit⟩ := exists_toDigits_digit n
  have read := readNumber_toDigits n hr
  rw [h] at read
  show readValue (fuel + 1) (Nat.toDigits 10 n ++ rest) = _
  rw [h, List.cons_append, readValue_number (.inl digit)]
  exact read

theorem readsBack_otherNumber : ReadsBack otherNumber := by
  refine readsBack_of_succ fun fuel rest _ hr => ?_
  have zero : readUnsigned ('0' :: rest) = some (natural (ofDigits ['0']), rest) :=
    readUnsigned_of_whole (by rw [readWhole]) hr
  show readValue (fuel + 1) ('-' :: '0' :: rest) = _
  rw [readValue_number (.inr rfl), readNumber, zero]
  rfl

/-- A quotation mark is the beginning of a string. -/
theorem readValue_quote (fuel : Nat) (text : List Char) : readValue (fuel + 1) ('"' :: text) =
    (readText text).map fun r => (string (r.1.map String.ofList), r.2) :=
  rfl

theorem map_ofList_toList (t : Option String) : (t.map String.toList).map String.ofList = t := by
  simp [Function.comp_def]

theorem readsBack_string (t : Option String) : ReadsBack (string t) := by
  refine readsBack_of_succ fun fuel rest _ hr => ?_
  obtain ⟨body, h, read⟩ := exists_writeText t
  show readValue (fuel + 1) (writeText t ++ rest) = _
  rw [h, List.cons_append, readValue_quote, read, Option.map_some, map_ofList_toList]

theorem readsBack_null : ReadsBack null :=
  readsBack_of_succ fun _ _ _ _ => rfl

theorem readsBack_bool (b : Bool) : ReadsBack (bool b) := by
  refine readsBack_of_succ fun fuel rest _ _ => ?_
  cases b with
  | false => rfl
  | true => rfl

/-! ## Arrays and objects -/

/-- Parts begin with what the first of them begins with. -/
theorem exists_separate_cons (separator : List Char) (c : Char) (part : List Char)
    (parts : List (List Char)) :
    ∃ text, separate separator ((c :: part) :: parts) = c :: text := by
  cases parts with
  | nil => exact ⟨part, rfl⟩
  | cons next parts => exact ⟨_, by rw [separate_cons_cons, List.cons_append, List.cons_append]⟩

/-- Parts are read in their order, if each of them is read both before a comma, with what is read
behind it, and before the closing character. -/
theorem read_separate {α : Type} {part : α → List Char} {closing : Char}
    {readParts : Nat → List Char → Option (List α × List Char)} {parts : List α}
    (last : ∀ a ∈ parts, ∀ ⦃fuel⦄, 2 * (part a).length ≤ fuel → ∀ rest,
      readParts (fuel + 1) (part a ++ closing :: rest) = some ([a], rest))
    (more : ∀ a ∈ parts, ∀ ⦃fuel text others rest⦄, 2 * (part a).length ≤ fuel →
      readParts fuel text = some (others, rest) →
      readParts (fuel + 1) (part a ++ ',' :: text) = some (a :: others, rest))
    (hne : parts ≠ []) (hf : 2 * (separate [','] (parts.map part)).length + 1 ≤ fuel)
    (rest : List Char) :
    readParts fuel (separate [','] (parts.map part) ++ closing :: rest) = some (parts, rest) := by
  induction parts generalizing fuel with
  | nil => exact absurd rfl hne
  | cons a parts ih =>
    obtain ⟨fuel, rfl⟩ : ∃ k, fuel = k + 1 := ⟨fuel - 1, by omega⟩
    cases parts with
    | nil =>
      simp only [List.map_cons, List.map_nil, separate] at hf ⊢
      have bound : 2 * (part a).length ≤ fuel := by omega
      exact last a List.mem_cons_self bound rest
    | cons b parts =>
      rw [List.map_cons, List.map_cons, separate_cons_cons, ← List.map_cons] at hf ⊢
      -- the comma pays for the step that goes on to the other parts
      simp only [List.length_append, List.length_singleton] at hf
      have bound : 2 * (part a).length ≤ fuel := by omega
      have bounds : 2 * (separate [','] ((b :: parts).map part)).length + 1 ≤ fuel := by omega
      have others := ih (fun c hc => last c (List.mem_cons_of_mem a hc))
        (fun c hc => more c (List.mem_cons_of_mem a hc)) (List.cons_ne_nil b parts) bounds
      rw [List.append_assoc, List.append_assoc]
      exact more a List.mem_cons_self bound others

variable {j : Json} {items : List Json} {name : Option String}
  {members : List (Option String × Json)} {text more : List Char}

/-- The last item is the one behind which the bracket closes. -/
theorem readItems_last (h : readValue fuel text = some (j, ']' :: rest)) :
    readItems (fuel + 1) text = some ([j], rest) := by
  -- the item is read first, and what comes behind it decides how the list goes on
  show (readValue fuel text).bind _ = _
  rw [h]
  rfl

theorem readItems_more (h : readValue fuel text = some (j, ',' :: more))
    (hm : readItems fuel more = some (items, rest)) :
    readItems (fuel + 1) text = some (j :: items, rest) := by
  show (readValue fuel text).bind _ = _
  rw [h]
  show (readItems fuel more).map _ = _
  rw [hm]
  rfl

theorem writeItems_eq_map (items : List Json) : writeItems items = items.map write := by
  induction items with
  | nil => rfl
  | cons j items ih => rw [writeItems_cons, ih, List.map_cons]

/-- Items that are read back one by one are read as a list, up to the closing bracket. -/
theorem readItems_separate (hne : items ≠ []) (each : ∀ j ∈ items, ReadsBack j)
    (hf : 2 * (separate [','] (writeItems items)).length + 1 ≤ fuel) (rest : List Char) :
    readItems fuel (separate [','] (writeItems items) ++ ']' :: rest) = some (items, rest) := by
  rw [writeItems_eq_map] at hf ⊢
  refine read_separate ?_ ?_ hne hf rest
  · intro j hj fuel bound rest
    exact readItems_last (each j hj bound (.cons (by decide) rest))
  · intro j hj fuel text others rest bound read
    exact readItems_more (each j hj bound (.cons (by decide) text)) read

/-- The last member is the one behind whose value the brace closes. -/
theorem readMembers_last (h : readValue fuel text = some (j, '}' :: rest)) :
    readMembers (fuel + 1) (writeText name ++ ':' :: text) = some ([(name, j)], rest) := by
  obtain ⟨body, quoted, read⟩ := exists_writeText name
  rw [quoted, List.cons_append]
  -- first the name, up to the colon, and then the value
  show (readText (body ++ ':' :: text)).bind _ = _
  rw [read]
  show (readValue fuel text).bind _ = _
  rw [h, map_ofList_toList]
  rfl

theorem readMembers_more (h : readValue fuel text = some (j, ',' :: more))
    (hm : readMembers fuel more = some (members, rest)) :
    readMembers (fuel + 1) (writeText name ++ ':' :: text) =
      some ((name, j) :: members, rest) := by
  obtain ⟨body, quoted, read⟩ := exists_writeText name
  rw [quoted, List.cons_append]
  show (readText (body ++ ':' :: text)).bind _ = _
  rw [read]
  show (readValue fuel text).bind _ = _
  rw [h, map_ofList_toList]
  show (readMembers fuel more).map _ = _
  rw [hm]
  rfl

theorem writeMembers_eq_map (members : List (Option String × Json)) :
    writeMembers members = members.map fun m => writeText m.1 ++ ':' :: write m.2 := by
  induction members with
  | nil => rfl
  | cons m members ih => rw [writeMembers_cons, ih, List.map_cons]

/-- Members whose values are read back one by one are read as a list, up to the closing brace. -/
theorem readMembers_separate (hne : members ≠ []) (each : ∀ m ∈ members, ReadsBack m.2)
    (hf : 2 * (separate [','] (writeMembers members)).length + 1 ≤ fuel) (rest : List Char) :
    readMembers fuel (separate [','] (writeMembers members) ++ '}' :: rest) =
      some (members, rest) := by
  rw [writeMembers_eq_map] at hf ⊢
  refine read_separate ?_ ?_ hne hf rest
  · intro m hm fuel bound rest
    rw [List.length_append, List.length_cons] at bound
    have value : 2 * (write m.2).length ≤ fuel := by omega
    rw [List.append_assoc]
    exact readMembers_last (each m hm value (.cons (by decide) rest))
  · intro m hm fuel text others rest bound read
    rw [List.length_append, List.length_cons] at bound
    have value : 2 * (write m.2).length ≤ fuel := by omega
    rw [List.append_assoc]
    exact readMembers_more (each m hm value (.cons (by decide) text)) read

/-- An array is read from its items, for no item begins with the closing bracket. -/
theorem readValue_array (hc : BeginsValue c)
    (hi : readItems fuel (c :: text) = some (items, rest)) :
    readValue (fuel + 1) ('[' :: c :: text) = some (array items, rest) := by
  have unclosed : c ≠ ']' := hc.ne (by decide)
  rw [readValue, skipBlanks_cons (by decide)]
  simp [hc.skipBlanks_cons, unclosed, hi]

theorem readValue_object (hm : readMembers fuel ('"' :: text) = some (members, rest)) :
    readValue (fuel + 1) ('{' :: '"' :: text) = some (object members, rest) := by
  show (readMembers fuel ('"' :: text)).map _ = _
  rw [hm]
  rfl

theorem readsBack_array (each : ∀ j ∈ items, ReadsBack j) : ReadsBack (array items) := by
  refine readsBack_of_succ fun fuel rest hf _ => ?_
  cases items with
  | nil => rfl
  | cons j items =>
    rw [write_array, List.length_cons, List.length_append, List.length_singleton] at hf
    have bound : 2 * (separate [','] (writeItems (j :: items))).length + 1 ≤ fuel := by omega
    have read := readItems_separate (List.cons_ne_nil j items) each bound rest
    obtain ⟨c, part, hj, begins⟩ := exists_write_cons j
    obtain ⟨text, ht⟩ := exists_separate_cons [','] c part (writeItems items)
    rw [write_array, List.cons_append, List.append_assoc, List.singleton_append]
    rw [writeItems_cons, hj, ht, List.cons_append] at read ⊢
    exact readValue_array begins read

theorem readsBack_object (each : ∀ m ∈ members, ReadsBack m.2) : ReadsBack (object members) := by
  refine readsBack_of_succ fun fuel rest hf _ => ?_
  cases members with
  | nil => rfl
  | cons m members =>
    rw [write_object, List.length_cons, List.length_append, List.length_singleton] at hf
    have bound : 2 * (separate [','] (writeMembers (m :: members))).length + 1 ≤ fuel := by omega
    have read := readMembers_separate (List.cons_ne_nil m members) each bound rest
    obtain ⟨name, j⟩ := m
    obtain ⟨body, quoted, -⟩ := exists_writeText name
    obtain ⟨text, ht⟩ := exists_separate_cons [','] '"' (body ++ ':' :: write j)
      (writeMembers members)
    rw [write_object, List.cons_append, List.append_assoc, List.singleton_append]
    rw [writeMembers_cons, quoted, List.cons_append, ht, List.cons_append] at read ⊢
    exact readValue_object read

/-! ## Every value -/

theorem readsBack : ∀ j : Json, ReadsBack j
  | null => readsBack_null
  | bool b => readsBack_bool b
  | natural n => readsBack_natural n
  | otherNumber => readsBack_otherNumber
  | string t => readsBack_string t
  | array items => readsBack_array fun j _ => readsBack j
  | object members => readsBack_object fun m _ => readsBack m.2
termination_by j => sizeOf j
decreasing_by
  · have smaller := List.sizeOf_lt_of_mem ‹j ∈ items›
    rw [array.sizeOf_spec]
    omega
  · have smaller := List.sizeOf_lt_of_mem ‹m ∈ members›
    rw [object.sizeOf_spec]
    obtain ⟨name, j⟩ := m
    rw [Prod.mk.sizeOf_spec] at smaller
    simp only
    omega

/-- A value that is written on one line is read back from it. -/
theorem parse?_compact (j : Json) : parse? j.compact = some j := by
  have bound : 2 * (write j).length ≤ 2 * (write j).length + 2 := by omega
  have read := readsBack j bound endsNumber_nil
  rw [List.append_nil] at read
  rw [parse?, compact, String.toList_ofList, read]
  rfl

end LdapFilter.Json
