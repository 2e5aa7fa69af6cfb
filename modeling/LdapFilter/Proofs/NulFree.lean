import LdapFilter.Proofs.Factored

/-!
# Characters that constructs do not have

NUL is no terminal, so no construct of the grammar has it anywhere: a filter that contains it has
to escape it. Items have no parentheses either (`Item.plain`); only filters put them around what
they are made of.
-/

namespace LdapFilter.Grammar

/-- A text without NUL. -/
def NulFree (s : List Char) : Prop :=
  ∀ ch ∈ s, ch ≠ '\x00'

@[simp] theorem nulFree_nil : NulFree [] :=
  nofun

@[simp] theorem nulFree_cons {ch : Char} {s : List Char} :
    NulFree (ch :: s) ↔ ch ≠ '\x00' ∧ NulFree s :=
  List.forall_mem_cons

@[simp] theorem nulFree_append {s t : List Char} : NulFree (s ++ t) ↔ NulFree s ∧ NulFree t :=
  List.forall_mem_append

theorem NulFree.head?_ne {s : List Char} (h : NulFree s) : s.head? ≠ some '\x00' := by
  cases s with
  | nil => nofun
  | cons ch s =>
    have ne : ch ≠ '\x00' := (nulFree_cons.1 h).1
    simpa using ne

/-- A text that goes on after one without NUL begins with NUL only if all of it does. -/
theorem NulFree.head?_append_ne {s t : List Char} (h : NulFree s) (ht : t.head? ≠ some '\x00') :
    (s ++ t).head? ≠ some '\x00' := by
  cases s with
  | nil => exact ht
  | cons => exact h.head?_ne

theorem nulFree_join {texts : List String} (h : ∀ s ∈ texts, NulFree s.toList) :
    NulFree (String.join texts).toList := by
  intro ch hch
  rw [String.toList_join, List.mem_flatMap] at hch
  obtain ⟨s, hs, hch⟩ := hch
  exact h s hs ch hch

/-! ## Items -/

/-- A character that is neither NUL nor a parenthesis. -/
def IsPlain (ch : Char) : Prop :=
  ch ≠ '\x00' ∧ ch ≠ '(' ∧ ch ≠ ')'

instance (ch : Char) : Decidable (IsPlain ch) :=
  inferInstanceAs (Decidable (_ ∧ _ ∧ _))

/-- A text without NUL and without parentheses. -/
def Plain (s : List Char) : Prop :=
  ∀ ch ∈ s, IsPlain ch

instance (s : List Char) : Decidable (Plain s) :=
  List.decidableBAll IsPlain s

@[simp] theorem plain_nil : Plain [] :=
  nofun

@[simp] theorem plain_cons {ch : Char} {s : List Char} :
    Plain (ch :: s) ↔ IsPlain ch ∧ Plain s :=
  List.forall_mem_cons

@[simp] theorem plain_append {s t : List Char} : Plain (s ++ t) ↔ Plain s ∧ Plain t :=
  List.forall_mem_append

theorem Plain.nulFree {s : List Char} (h : Plain s) : NulFree s :=
  fun ch hch => (h ch hch).1

theorem isPlain_of_isAlpha {ch : Char} (h : ch.isAlpha) : IsPlain ch := by
  refine ⟨?_, ?_, ?_⟩ <;> rintro rfl <;> cases h

theorem isPlain_of_isDigit {ch : Char} (h : ch.isDigit) : IsPlain ch := by
  refine ⟨?_, ?_, ?_⟩ <;> rintro rfl <;> cases h

theorem IsKeychar.isPlain {ch : Char} (h : IsKeychar ch) : IsPlain ch := by
  obtain ha | hd | rfl := h
  · exact isPlain_of_isAlpha ha
  · exact isPlain_of_isDigit hd
  · decide

theorem IsHexDigit.isPlain {ch : Char} (h : IsHexDigit ch) : IsPlain ch := by
  have other {s : Char} (hs : ¬IsHexDigit s) : ch ≠ s := by
    rintro rfl
    exact hs h
  exact ⟨other (by decide), other (by decide), other (by decide)⟩

theorem IsNormal.isPlain {ch : Char} (h : IsNormal ch) : IsPlain ch :=
  ⟨h.1, h.2.1, h.2.2.1⟩

theorem plain_of_keychars {s : List Char} (h : ∀ ch ∈ s, IsKeychar ch) : Plain s :=
  fun ch hch => (h ch hch).isPlain

theorem Number.plain {s : List Char} (h : Number s) : Plain s := by
  cases h with
  | zero => simp [IsPlain]
  | positive hd _ hs =>
    exact plain_cons.2 ⟨isPlain_of_isDigit hd, fun ch hch => isPlain_of_isDigit (hs ch hch)⟩

theorem Numericoid.plain {s : List Char} (h : Numericoid s) : Plain s := by
  induction h with
  | number hn => exact hn.plain
  | dot hn _ ih => simp [IsPlain, hn.plain, ih]

theorem Oid.plain {s : List Char} (h : Oid s) : Plain s := by
  cases h with
  | descr hk =>
    cases hk with
    | mk ha hs => exact plain_cons.2 ⟨isPlain_of_isAlpha ha, plain_of_keychars hs⟩
  | numericoid hn => exact hn.plain

theorem Options.plain {s : List Char} (h : Options s) : Plain s := by
  induction h with
  | nil => simp
  | cons _ hk _ ih => simp [IsPlain, plain_of_keychars hk, ih]

theorem Attr.plain {s : List Char} (h : Attr s) : Plain s := by
  cases h with
  | mk ho hs => simp [ho.plain, hs.plain]

theorem Value.plain {s : List Char} (h : Value s) : Plain s := by
  induction h with
  | nil => simp
  | normal hn _ ih => simp [hn.isPlain, ih]
  | escaped hh hl _ ih =>
    have backslash : IsPlain '\\' := by decide
    simp [backslash, hh.isPlain, hl.isPlain, ih]

theorem Stars.plain {s : List Char} (h : Stars s) : Plain s := by
  induction h with
  | nil => simp
  | cons hv _ ih => simp [IsPlain, hv.plain, ih]

theorem Marker.plain {s : List Char} (h : Marker s) : Plain s := by
  obtain ⟨rfl | rfl, rfl | rfl⟩ := h <;> simp [IsPlain]

theorem Extensible.plain {required : Bool} {s : List Char} (h : Extensible required s) :
    Plain s := by
  cases h with
  | mk hn hv =>
    cases hn with
    | none => simp [IsPlain, hv.plain]
    | marker hm => simp [IsPlain, hm.plain, hv.plain]
    | rule ho _ => simp [IsPlain, ho.plain, hv.plain]
    | both hm ho => simp [IsPlain, hm.plain, ho.plain, hv.plain]

theorem Item.plain {s : List Char} (h : Item s) : Plain s := by
  obtain ⟨attr, tail, ha, ht, rfl⟩ | he := item_iff.1 h
  · refine plain_append.2 ⟨ha.plain, ?_⟩
    cases ht with
    | extensible he => exact he.plain
    | ordering hs hv => obtain rfl | rfl | rfl := hs <;> simp [IsPlain, hv.plain]
    | equality hv hs => simp [IsPlain, hv.plain, hs.plain]
  · exact he.plain

/-! ## Filters -/

mutual

/-- A filter has no NUL. -/
theorem Filter.nulFree : ∀ {levels : Nat} {s : List Char}, Filter levels s → NulFree s
  | _, _, .mk h => by simp [h.nulFree]

theorem Component.nulFree : ∀ {levels : Nat} {s : List Char}, Component levels s → NulFree s
  | _, _, .and h => by simp [h.nulFree]
  | _, _, .or h => by simp [h.nulFree]
  | _, _, .not h => by simp [h.nulFree]
  | _, _, .item h => h.plain.nulFree

theorem Filters.nulFree : ∀ {levels : Nat} {s : List Char}, Filters levels s → NulFree s
  | _, _, .one h => h.nulFree
  | _, _, .cons h hs => by simp [h.nulFree, hs.nulFree]

end

end LdapFilter.Grammar
