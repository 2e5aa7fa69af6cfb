/-!
# Context of a diagnostic

A context maps names to texts and lists its names in increasing order. The order is by code
points, which is the order of the octets that spell them.
-/

namespace LdapFilter

/-- A finite map from names to texts. -/
structure Context where
  /-- The names and their texts. -/
  entries : List (String × String)
  /-- The names increase. -/
  sorted : entries.Pairwise fun a b => a.1 < b.1
  deriving DecidableEq

namespace Context

/-- The map without names. -/
def empty : Context :=
  ⟨[], .nil⟩

/-- `entries` with the text of `name` set to `text`. -/
def insertEntry (name text : String) : List (String × String) → List (String × String)
  | [] => [(name, text)]
  | e :: rest =>
    if name < e.1 then (name, text) :: e :: rest
    else if name = e.1 then (name, text) :: rest
    else e :: insertEntry name text rest

theorem mem_insertEntry {name text : String} {l : List (String × String)} {e : String × String}
    (h : e ∈ insertEntry name text l) : e = (name, text) ∨ e ∈ l := by
  induction l with
  | nil => simpa [insertEntry] using h
  | cons a l ih =>
    unfold insertEntry at h
    split at h
    · simpa using h
    · split at h
      · simp only [List.mem_cons] at h ⊢
        exact h.imp_right .inr
      · simp only [List.mem_cons] at h ⊢
        rcases h with h | h
        · exact .inr (.inl h)
        · exact (ih h).imp_right .inr

theorem pairwise_insertEntry {name text : String} {l : List (String × String)}
    (h : l.Pairwise fun a b => a.1 < b.1) :
    (insertEntry name text l).Pairwise fun a b => a.1 < b.1 := by
  induction l with
  | nil => simp [insertEntry]
  | cons a l ih =>
    obtain ⟨ha, hl⟩ := List.pairwise_cons.1 h
    unfold insertEntry
    split
    · next hlt =>
      refine List.pairwise_cons.2 ⟨fun b hb => ?_, h⟩
      rcases List.mem_cons.1 hb with rfl | hb
      · exact hlt
      · exact String.lt_trans hlt (ha b hb)
    · next hlt =>
      split
      · next he => exact List.pairwise_cons.2 ⟨fun b hb => he ▸ ha b hb, hl⟩
      · next hne =>
        refine List.pairwise_cons.2 ⟨fun b hb => ?_, ih hl⟩
        rcases mem_insertEntry hb with rfl | hb
        · exact String.not_le.1 fun hle => hne (String.le_antisymm hle (String.not_lt.1 hlt))
        · exact ha b hb

/-- The map with the text of `name` set to `text`. -/
def insert (c : Context) (name text : String) : Context :=
  ⟨insertEntry name text c.entries, pairwise_insertEntry c.sorted⟩

/-- The map of a list of names and texts; the last text of a name counts. -/
def ofList (l : List (String × String)) : Context :=
  l.foldl (fun c e => c.insert e.1 e.2) empty

/-- The text of a name. -/
def get? (c : Context) (name : String) : Option String :=
  c.entries.lookup name

end Context

end LdapFilter
