import LdapFilter.Diagnostic.Json
import LdapFilter.Proofs.JsonReading

/-!
# Reading back diagnostics

A diagnostic is read back from the line that it is written as, whatever its texts are, with bounds
in either order, and with its span and its context there or not. The text gives back the value that
was written (`Json.parse?_compact`), so what is left are the fields. An object of distinct names
holds under each name what was put there (`record?_ofMembers`), a field that was left out is read as
absent (`optional?_map`), and a context whose names already increase is rebuilt by putting each name
behind those before it (`Context.ofList_entries`).
-/

namespace LdapFilter

/-! ## Fields -/

namespace Json

variable {members : List (String × Json)}

/-- Of distinct names, the members of one name are what is looked up under it. -/
theorem filter_name (distinct : (members.map Prod.fst).Nodup) (name : String) :
    ((members.map fun m => (some m.1, m.2)).filter fun m => m.1 = some name) =
      (members.lookup name).toList.map fun j => (some name, j) := by
  induction members with
  | nil => rfl
  | cons m members ih =>
    obtain ⟨other, j⟩ := m
    obtain ⟨absent, distinct⟩ := List.nodup_cons.1 distinct
    by_cases same : other = name
    · subst same
      have none_left : members.lookup other = none := by
        refine List.lookup_eq_none_iff.2 fun m hm => bne_iff_ne.2 ?_
        rintro rfl
        exact absent (List.mem_map.2 ⟨m, hm, rfl⟩)
      simp [ih distinct, none_left]
    · have other_name : (name == other) = false := beq_false_of_ne (Ne.symm same)
      simp [ih distinct, same, other_name, List.lookup_cons]

/-- The fields of an object of distinct names are what is looked up under their names. -/
theorem record?_ofMembers (distinct : (members.map Prod.fst).Nodup) (names : List String) :
    (ofMembers members).record? names = some (names.map fun name => members.lookup name) := by
  have texts : ((members.map fun m => (some m.1, m.2)).all fun m => m.1.isSome) = true := by simp
  unfold ofMembers record?
  simp only [texts, if_true]
  refine Eq.trans ?_ List.mapM_pure
  congr 1
  funext name
  rw [filter_name distinct]
  cases members.lookup name <;> rfl

/-- A field that is left out where there is nothing to write is read back. -/
theorem optional?_map {α : Type} {read : Json → Option α} {write : α → Json} {field : Option α}
    (not_null : ∀ a, write a ≠ null) (back : ∀ a ∈ field, read (write a) = some a) :
    optional? read (field.map write) = some field := by
  cases field with
  | none => rfl
  | some a =>
    have read_back := back a rfl
    rw [Option.map_some, optional?, read_back]
    · rfl
    · exact not_null a

end Json

/-! ## Spans -/

/-- A span of 64-bit bounds is read back, in whichever order they are. -/
theorem Span.ofJson?_toJson {s : Span} (hs : s.start < UInt64.size) (he : s.stop < UInt64.size) :
    Span.ofJson? s.toJson = some s := by
  have fields : s.toJson.record? ["start", "end"] =
      some [some (.natural s.start), some (.natural s.stop)] := by
    rw [Span.toJson, Json.record?_ofMembers (by simp)]
    simp [List.lookup_cons]
  simp [Span.ofJson?, fields, Json.offset?, hs, he]

/-! ## Contexts -/

namespace Context

/-- A name greater than all others is put behind them. -/
theorem insertEntry_of_greatest {name : String} {l : List (String × String)}
    (h : ∀ e ∈ l, e.1 < name) (text : String) :
    insertEntry name text l = l ++ [(name, text)] := by
  induction l with
  | nil => rfl
  | cons e l ih =>
    obtain ⟨first, others⟩ := List.forall_mem_cons.1 h
    have not_before : ¬name < e.1 := String.lt_asymm first
    have not_same : name ≠ e.1 := fun same => String.lt_irrefl _ (same ▸ first)
    rw [insertEntry, if_neg not_before, if_neg not_same, ih others, List.cons_append]

/-- Names that increase are put one behind another. -/
theorem entries_foldl_insert (l : List (String × String)) (c : Context)
    (increasing : (c.entries ++ l).Pairwise fun a b => a.1 < b.1) :
    (l.foldl (fun c e => c.insert e.1 e.2) c).entries = c.entries ++ l := by
  induction l generalizing c with
  | nil => simp
  | cons e l ih =>
    have greatest : ∀ a ∈ c.entries, a.1 < e.1 := fun a ha =>
      (List.pairwise_append.1 increasing).2.2 a ha e List.mem_cons_self
    have put : (c.insert e.1 e.2).entries = c.entries ++ [e] :=
      insertEntry_of_greatest greatest e.2
    rw [List.foldl_cons, ih, put, List.append_assoc, List.singleton_append]
    rw [put, List.append_assoc, List.singleton_append]
    exact increasing

/-- A context is the map of its entries. -/
theorem ofList_entries (c : Context) : ofList c.entries = c := by
  have entries : (ofList c.entries).entries = c.entries :=
    entries_foldl_insert c.entries empty c.sorted
  cases h : ofList c.entries
  rw [h] at entries
  cases entries
  rfl

theorem ofJson?_toJson (c : Context) : ofJson? c.toJson = some c := by
  have entries : (c.entries.map fun e => (some e.1, Json.text e.2)).mapM entry? =
      some c.entries := by
    rw [List.mapM_map]
    exact List.mapM_pure.trans (by simp)
  have read : ofJson? c.toJson = ((c.entries.map fun e => (some e.1, Json.text e.2)).mapM
      entry?).map ofList := by
    rw [toJson, Json.ofMembers, List.map_map]
    rfl
  rw [read, entries, Option.map_some, ofList_entries]

end Context

/-! ## Diagnostics -/

theorem Severity.ofJson?_name (severity : Severity) :
    Severity.ofJson? (.text severity.name) = some severity := by
  cases severity
  rfl

namespace Diagnostic

/-- The fields that a written diagnostic has. -/
theorem record?_toJson (d : Diagnostic) :
    d.toJson.record? ["id", "severity", "message", "span", "context"] =
      some [some (.text d.id), some (.text d.severity.name), some (.text d.message),
        d.span.map Span.toJson, d.context.map Context.toJson] := by
  obtain ⟨id, severity, message, span, context⟩ := d
  -- the span and the context are each left out or not
  rcases span with _ | s <;> rcases context with _ | c
  all_goals
    rw [toJson, Json.record?_ofMembers (by simp)]
    simp [List.lookup_cons]

/-- A diagnostic is read back from its object. -/
theorem ofJson?_toJson (d : Diagnostic)
    (h : ∀ s ∈ d.span, s.start < UInt64.size ∧ s.stop < UInt64.size) :
    ofJson? d.toJson = some d := by
  have span : Json.optional? Span.ofJson? (d.span.map Span.toJson) = some d.span :=
    Json.optional?_map (fun s => nofun) fun s hs => Span.ofJson?_toJson (h s hs).1 (h s hs).2
  have context : Json.optional? Context.ofJson? (d.context.map Context.toJson) =
      some d.context :=
    Json.optional?_map (fun c => nofun) fun c _ => Context.ofJson?_toJson c
  have texts : ∀ t, (Json.text t).text? = some t := fun _ => rfl
  simp [ofJson?, record?_toJson, texts, Severity.ofJson?_name, span, context]

/-- Every diagnostic with 64-bit bounds is read back from the line that it is written as. -/
theorem diagnostics_read_back (d : Diagnostic)
    (h : ∀ s ∈ d.span, s.start < UInt64.size ∧ s.stop < UInt64.size) :
    parse? d.toJson.compact = some d := by
  rw [parse?, Json.parse?_compact, Option.bind_some, ofJson?_toJson d h]

/-- Characters that are escaped, the greatest bound before the smallest, and an empty context. -/
theorem diagnostics_read_back_reversed :
    (UInt64.size - 1 < UInt64.size ∧ 0 < UInt64.size) ∧
      parse? (toJson ⟨"", .error, "\"\\\x01é", some ⟨UInt64.size - 1, 0⟩, some .empty⟩).compact =
        some ⟨"", .error, "\"\\\x01é", some ⟨UInt64.size - 1, 0⟩, some .empty⟩ := by
  have bounds : UInt64.size - 1 < UInt64.size ∧ 0 < UInt64.size := by decide
  refine ⟨bounds, diagnostics_read_back _ ?_⟩
  rintro s ⟨⟩
  exact bounds

end Diagnostic

end LdapFilter
