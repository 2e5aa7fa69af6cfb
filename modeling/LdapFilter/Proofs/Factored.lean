import LdapFilter.Filter.Grammar

/-!
# The grammar of items, factored by first characters

The alternatives of an item begin alike, so a reader with one character of lookahead cannot follow
them as the grammar lists them. Here they are grouped by what comes first: an attribute and then
one of three tails, or a colon. `item_iff` says that the grouping changes nothing. It also makes
the part between the colons of an extensible match a construct of its own (`DnAndRule`), in which
each name is followed by its colon.
-/

namespace LdapFilter.Grammar

/-- `[ dn COLON ] [ oid COLON ]`; a rule that is `required` is there, and is not called `dn`. -/
inductive DnAndRule : (required : Bool) → List Char → Prop where
  | none : DnAndRule false []
  | marker {dn : List Char} : Marker dn → DnAndRule false (dn ++ [':'])
  | rule {required : Bool} {oid : List Char} : Oid oid → (required → ¬Marker oid) →
      DnAndRule required (oid ++ [':'])
  | both {required : Bool} {dn oid : List Char} : Marker dn → Oid oid →
      DnAndRule required (dn ++ ':' :: oid ++ [':'])

/-- `COLON [ dn COLON ] [ oid COLON ] EQUALS assertionvalue`. -/
inductive Extensible (required : Bool) : List Char → Prop where
  | mk {names value : List Char} : DnAndRule required names → Value value →
      Extensible required (':' :: names ++ '=' :: value)

/-- `*( ASTERISK assertionvalue )`. -/
inductive Stars : List Char → Prop where
  | nil : Stars []
  | cons {value rest : List Char} : Value value → Stars rest → Stars ('*' :: value ++ rest)

/-- What follows the attribute of an item. -/
inductive ItemTail : List Char → Prop where
  | extensible {s : List Char} : Extensible false s → ItemTail s
  | ordering {sign : Char} {value : List Char} : sign = '~' ∨ sign = '>' ∨ sign = '<' →
      Value value → ItemTail (sign :: '=' :: value)
  | equality {value stars : List Char} : Value value → Stars stars →
      ItemTail ('=' :: value ++ stars)

theorem Number.exists_digit {s : List Char} (h : Number s) :
    ∃ ch rest, s = ch :: rest ∧ ch.isDigit := by
  cases h with
  | zero => exact ⟨_, _, rfl, rfl⟩
  | positive hd _ _ => exact ⟨_, _, rfl, hd⟩

theorem Numericoid.exists_digit {s : List Char} (h : Numericoid s) :
    ∃ ch rest, s = ch :: rest ∧ ch.isDigit := by
  cases h with
  | number hn => exact hn.exists_digit
  | dot hn _ =>
    obtain ⟨ch, rest, rfl, hd⟩ := hn.exists_digit
    exact ⟨ch, _, rfl, hd⟩

theorem Oid.exists_lead {s : List Char} (h : Oid s) :
    ∃ ch rest, s = ch :: rest ∧ (ch.isAlpha ∨ ch.isDigit) := by
  cases h with
  | descr hk => cases hk with | mk ha _ => exact ⟨_, _, rfl, .inl ha⟩
  | numericoid hn =>
    obtain ⟨ch, rest, rfl, hd⟩ := hn.exists_digit
    exact ⟨ch, rest, rfl, .inr hd⟩

/-- A number, and what begins with one, is not the marker. -/
theorem Numericoid.not_marker {s : List Char} (h : Numericoid s) : ¬Marker s := by
  obtain ⟨ch, rest, rfl, hd⟩ := h.exists_digit
  rintro ⟨rfl | rfl, _⟩ <;> cases hd

/-- No text that ends in a digit is the marker. -/
theorem not_marker_append_zero (s : List Char) : ¬Marker (s ++ ['0']) := by
  generalize hs : s ++ ['0'] = t
  rintro ⟨_, hn⟩
  have hlast := congrArg List.getLast? hs
  rw [List.getLast?_concat] at hlast
  cases hlast
  exact absurd hn (by decide)

/-- Values between asterisks may be grouped with the asterisk before or after them. -/
theorem Stars.of_pieces {any final : List Char} (h : Pieces any) (hf : Value final) :
    Stars ('*' :: any ++ final) := by
  induction h with
  | nil => simpa using Stars.cons hf .nil
  | cons hv _ ih => simpa using Stars.cons hv ih

theorem Stars.exists_pieces {value stars : List Char} (h : Stars stars) (hv : Value value) :
    ∃ any final, Pieces any ∧ Value final ∧ value ++ stars = any ++ final := by
  induction h generalizing value with
  | nil => exact ⟨[], value, .nil, hv, by simp⟩
  | cons hw _ ih =>
    obtain ⟨any, final, ha, hf, he⟩ := ih hw
    exact ⟨value ++ '*' :: any, final, .cons hv ha, hf, by simp [he]⟩

theorem Extensible.item {attr s : List Char} (ha : Attr attr) (h : Extensible false s) :
    Item (attr ++ s) := by
  cases h with
  | mk hn hv =>
    cases hn with
    | none => simpa using Item.extensible ha .none .none hv
    | marker hm => simpa using Item.extensible ha (.some hm) .none hv
    | rule ho _ => simpa using Item.extensible ha .none (.some ho) hv
    | both hm ho => simpa using Item.extensible ha (.some hm) (.some ho) hv

theorem Extensible.item_of_required {s : List Char} (h : Extensible true s) : Item s := by
  cases h with
  | mk hn hv =>
    cases hn with
    | rule ho hm => simpa using Item.rule ho (hm rfl) hv
    | both hm ho => simpa using Item.markedRule hm ho hv

theorem ItemTail.item {attr s : List Char} (ha : Attr attr) (h : ItemTail s) :
    Item (attr ++ s) := by
  cases h with
  | extensible h => exact h.item ha
  | ordering hs hv =>
    obtain rfl | rfl | rfl := hs
    · simpa using Item.simple ha .approx hv
    · simpa using Item.simple ha .greaterOrEqual hv
    · simpa using Item.simple ha .lessOrEqual hv
  | equality hv hs =>
    cases hs with
    | nil => simpa using Item.simple ha .equal hv
    | cons hw hs =>
      obtain ⟨any, final, hp, hf, he⟩ := hs.exists_pieces hw
      simpa [he] using Item.substring ha hv hp hf

/-- An item is an attribute and its tail, or an extensible match without an attribute. -/
theorem item_iff {s : List Char} :
    Item s ↔ (∃ attr tail, Attr attr ∧ ItemTail tail ∧ s = attr ++ tail) ∨ Extensible true s := by
  constructor
  · intro h
    cases h with
    | simple ha hs hv =>
      refine .inl ⟨_, _, ha, ?_, List.append_assoc ..⟩
      cases hs with
      | equal => simpa using ItemTail.equality hv .nil
      | approx => exact .ordering (.inl rfl) hv
      | greaterOrEqual => exact .ordering (.inr (.inl rfl)) hv
      | lessOrEqual => exact .ordering (.inr (.inr rfl)) hv
    | present ha =>
      exact .inl ⟨_, _, ha, .equality .nil (Stars.of_pieces .nil .nil), rfl⟩
    | substring ha hi hp hf =>
      exact .inl ⟨_, _, ha, .equality hi (Stars.of_pieces hp hf), by simp⟩
    | @extensible _ _ _ value ha hm hr hv =>
      have tail (names : List Char) (hn : DnAndRule false names) :
          ItemTail (':' :: names ++ '=' :: value) := .extensible (.mk hn hv)
      cases hm with
      | none =>
        cases hr with
        | none => exact .inl ⟨_, _, ha, tail _ .none, by simp⟩
        | some ho => exact .inl ⟨_, _, ha, tail _ (.rule ho nofun), by simp⟩
      | some hm =>
        cases hr with
        | none => exact .inl ⟨_, _, ha, tail _ (.marker hm), by simp⟩
        | some ho => exact .inl ⟨_, _, ha, tail _ (.both hm ho), by simp⟩
    | markedRule hm ho hv => exact .inr (by simpa using Extensible.mk (.both hm ho) hv)
    | rule ho hm hv => exact .inr (by simpa using Extensible.mk (.rule ho fun _ => hm) hv)
  · rintro (⟨attr, tail, ha, ht, rfl⟩ | h)
    · exact ht.item ha
    · exact h.item_of_required

/-- Filters stay so when more levels are allowed. -/
theorem Filters.mono {m n : Nat} (hmn : m ≤ n) {s : List Char} (h : Filters m s) :
    Filters n s := by
  induction hmn with
  | refl => exact h
  | step _ ih => exact ih.succ

/-- A filter in front of a list of filters makes one, and so does a filter alone. -/
theorem Filters.prepend {levels : Nat} {filter filters : List Char} (h : Filter levels filter)
    (hs : filters = [] ∨ Filters levels filters) : Filters levels (filter ++ filters) := by
  obtain rfl | hs := hs
  · rw [List.append_nil]
    exact .one h
  · exact .cons h hs

end LdapFilter.Grammar
