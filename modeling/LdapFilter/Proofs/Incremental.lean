import LdapFilter.Proofs.Continuation

/-!
# Filters read one after another

A parser may be asked for one filter after another, and keeps what it needs to go on: no filter is
open between two of them, and the lookahead stands at a place of the text (`Parser.Stands`). Reading
a filter moves that place to the end of the filter, or to the token at fault
(`Parser.Stands.of_filter`), and this holds in every state that a parser can be brought to
(`Parser.Reached.stands`). So filters are read one after another as each of them is read alone.
-/

namespace LdapFilter

open Grammar
open CharCursor (behind)

namespace Parser

/-- Reads `n` filters one after another. -/
def filterTimes {σ : Type} [TokenSource σ] : (n : Nat) → EStateM ParseError (Parser σ) Unit
  | 0 => pure ()
  | n + 1 => do
    Parser.filter
    filterTimes n

/-- The states of a parser over `text` that its operations lead to. -/
inductive Reached (text : String) : Parser CharCursor → Prop where
  | start {p : Parser CharCursor} (h : ofSource? (CharCursor.ofList text.toList) = .ok p) :
      Reached text p
  | withLimit {p : Parser CharCursor} (limit : Nat) (h : Reached text p) :
      Reached text (p.withLimit limit)
  | accepted {p q : Parser CharCursor} (h : Reached text p) (run : Parser.filter p = .ok () q) :
      Reached text q
  | refused {p q : Parser CharCursor} {e : ParseError} (h : Reached text p)
      (run : Parser.filter p = .error e q) : Reached text q

/-- Between two filters the parser stands behind `before`, in front of `rest`. -/
structure Stands (p : Parser CharCursor) (before rest : List Char) : Prop where
  /-- No filter is open. -/
  closed : p.depth = 0
  heads : p.cursor.Heads (behind before rest)

variable {p q : Parser CharCursor} {before rest u : List Char} {limit : Nat}

/-! ## One filter -/

/-- Whatever its verdict, a run leaves the parser at the place where the verdict was reached. -/
theorem state_of_holds {v : Verdict} {m : Lookahead CharCursor}
    {r : EStateM.Result ParseError (Parser CharCursor) Unit}
    (h : v.Holds (.parser 0 limit) m r) :
    (v = .fits ∧ r = .ok () ⟨m, 0, limit⟩) ∨ ∃ e, r = .error e ⟨m, 0, limit⟩ := by
  cases v with
  | fits => exact .inl ⟨rfl, h⟩
  | lacks construct => exact .inr ⟨_, h⟩
  | stuck =>
    obtain ⟨e, k, he, h⟩ := h
    rw [CharCursor.source_of_error he] at h
    exact .inr ⟨_, h⟩
  | tooDeep => exact .inr ⟨_, h⟩

/-- Reading a filter leads from one place of the text to another, and over a filter if it
succeeds. -/
theorem Stands.of_filter (h : p.Stands before rest)
    (run : Parser.filter p = .ok () q ∨ ∃ e, Parser.filter p = .error e q) :
    ∃ u rest', rest = u ++ rest' ∧ q.Stands (before ++ u) rest' ∧
      (Parser.filter p = .ok () q → Filter p.limit u) := by
  obtain ⟨c, depth, limit⟩ := p
  obtain ⟨rfl, hc⟩ := h
  have stays : Stays (.parser 0 limit) (Filter limit) (fun s => ∃ n, Filter n s) c
      (Parser.filter ⟨c, 0, limit⟩) := FilterRule.stays_within limit 0 c
  obtain ⟨u, m, v, hr, hv, hviable⟩ := stays (SpellingSource.isSpelled hc.next_eq)
  obtain ⟨rest', rfl, hm⟩ := hr.exists_rest hc
  refine ⟨u, rest', rfl, ?_⟩
  obtain ⟨rfl, hok⟩ | ⟨e, herr⟩ := state_of_holds hv
  · obtain run | ⟨_, run⟩ := run
    · cases run.symm.trans hok
      exact ⟨⟨rfl, hm⟩, fun _ => hviable⟩
    · cases run.symm.trans hok
  · obtain run | ⟨_, run⟩ := run
    · cases run.symm.trans herr
    · cases run.symm.trans herr
      refine ⟨⟨rfl, hm⟩, ?_⟩
      intro hok
      cases hok.symm.trans herr

/-- A filter in front of the parser is read, unless NUL comes right after it. -/
theorem Stands.filter_ok (h : p.Stands before (u ++ rest)) (hu : Filter p.limit u)
    (hne : rest.head? ≠ some '\x00') :
    ∃ q, Parser.filter p = .ok () q ∧ q.limit = p.limit ∧ q.Stands (before ++ u) rest := by
  obtain ⟨c, depth, limit⟩ := p
  obtain ⟨rfl, hc⟩ := h
  obtain ⟨m, hr, hm⟩ := exists_reads_to hu.nulFree hne hc
  exact ⟨⟨m, 0, limit⟩, FilterRule.accepts_within hr hu, rfl, rfl, hm⟩

/-! ## Many filters -/

theorem exists_stands {text : List Char} (hne : text.head? ≠ some '\x00') :
    ∃ p, ofSource? (CharCursor.ofList text) = .ok p ∧ p.Stands [] text := by
  obtain ⟨c, hc⟩ : ∃ c : Lookahead CharCursor, c.Heads (behind [] text) := exists_heads hne
  have start : Lookahead.ofSource? (CharCursor.ofList text) = .ok c := by
    show Lookahead.ofSource? (behind [] text) = _
    simp only [Lookahead.ofSource?, hc.next_eq]
  exact ⟨⟨c, 0, defaultLimit⟩, by simp only [ofSource?, start], rfl, hc⟩

theorem stands_of_ofSource? {text : List Char}
    (h : ofSource? (CharCursor.ofList text) = .ok p) : p.Stands [] text := by
  obtain ⟨closed, heads⟩ := heads_of_ofSource? h
  exact ⟨closed, heads⟩

/-- A parser always stands at a place of its text with no filter open. -/
theorem Reached.stands {text : String} (h : Reached text p) :
    ∃ before rest, text.toList = before ++ rest ∧ p.Stands before rest := by
  induction h with
  | start h => exact ⟨[], text.toList, rfl, stands_of_ofSource? h⟩
  | withLimit limit _ ih =>
    obtain ⟨before, rest, htext, h⟩ := ih
    exact ⟨before, rest, htext, h.closed, h.heads⟩
  | accepted _ run ih =>
    obtain ⟨before, rest, htext, h⟩ := ih
    obtain ⟨u, rest', rfl, hq, -⟩ := h.of_filter (.inl run)
    exact ⟨before ++ u, rest', by simp [htext], hq⟩
  | refused _ run ih =>
    obtain ⟨before, rest, htext, h⟩ := ih
    obtain ⟨u, rest', rfl, hq, -⟩ := h.of_filter (.inr ⟨_, run⟩)
    exact ⟨before ++ u, rest', by simp [htext], hq⟩

theorem filterTimes_succ (n : Nat) (h : Parser.filter p = .ok () q) :
    filterTimes (n + 1) p = filterTimes n q := by
  show EStateM.bind Parser.filter (fun _ => filterTimes n) p = _
  rw [EStateM.bind, h]

theorem filterTimes_one (p : Parser CharCursor) : filterTimes 1 p = Parser.filter p := by
  show EStateM.bind Parser.filter (fun _ => filterTimes 0) p = _
  rw [EStateM.bind]
  cases Parser.filter p with
  | ok _ q => rfl
  | error e q => rfl

/-- Filters in front of the parser are read one after another. -/
theorem Stands.filterTimes_ok (fs : List String)
    (h : p.Stands before ((String.join fs).toList ++ rest))
    (hfs : ∀ f ∈ fs, Filter p.limit f.toList) (hne : rest.head? ≠ some '\x00') :
    ∃ q, filterTimes fs.length p = .ok () q ∧
      q.Stands (before ++ (String.join fs).toList) rest := by
  induction fs generalizing p before with
  | nil => exact ⟨p, rfl, by simpa using h⟩
  | cons f fs ih =>
    obtain ⟨hf, hfs⟩ := List.forall_mem_cons.1 hfs
    have h : p.Stands before (f.toList ++ ((String.join fs).toList ++ rest)) := by
      simpa using h
    have hjoin : NulFree (String.join fs).toList := nulFree_join fun f hf => (hfs f hf).nulFree
    obtain ⟨q, hq, hlimit, hstands⟩ := h.filter_ok hf (hjoin.head?_append_ne hne)
    obtain ⟨k, hk, hend⟩ := ih hstands (hlimit ▸ hfs)
    refine ⟨k, ?_, by simpa using hend⟩
    rw [List.length_cons, filterTimes_succ _ hq, hk]

/-- A parser at the end of a text has nothing more to read, and only there. -/
theorem Stands.finish_eq_ok_iff (h : p.Stands before rest) : p.finish = .ok () ↔ rest = [] := by
  obtain ⟨hr, ht⟩ | ⟨ch, tail, kind, hr, hk, ht, -⟩ := CharCursor.heads_behind h.heads
  · simp [hr, finish, atEof, Lookahead.atEof, ht, Token.eof, Token.isEof]
  · have spells : p.cursor.current.Spells ch := ht ▸ CharCursor.spells_tokenBehind hk
    have more : ¬p.cursor.current.isEof := fun he => spells.kind_ne_eof (of_decide_eq_true he)
    simp [hr, finish, atEof, Lookahead.atEof, more]

end Parser

/-- **Filters one after another.** Filters that are accepted alone are read one after another, and
the parser is left at the first token after them. Wherever a parser has been brought to, what it
reads as a filter is accepted alone. -/
theorem filters_read_incrementally (limit : Nat) :
    (∀ (fs : List String) (rest : String), (∀ f ∈ fs, parse f ⟨.codePoint, limit⟩ = .ok ()) →
      rest.toList.head? ≠ some '\x00' →
      ∃ p q, Parser.ofSource? (CharCursor.ofList (String.join fs ++ rest).toList) = .ok p ∧
        Parser.filterTimes fs.length (p.withLimit limit) = .ok () q ∧
        firstToken? (String.join fs) rest = some q.cursor.current ∧
        (q.finish = .ok () ↔ rest = "")) ∧
    ∀ (text : String) (p q : Parser CharCursor), Parser.Reached text p → p.limit = limit →
      Parser.filter p = .ok () q →
      ∃ before filter rest, text = before ++ filter ++ rest ∧
        p.cursor.current.span.start = before.utf8ByteSize ∧
        q.cursor.current.span.start = (before ++ filter).utf8ByteSize ∧
        parse filter ⟨.codePoint, limit⟩ = .ok () := by
  constructor
  · intro fs rest hfs hne
    have hfs : ∀ f ∈ fs, Filter limit f.toList := by
      intro f hf
      exact recognize_eq_ok_iff.1 (hfs f hf)
    have hjoin : NulFree (String.join fs).toList :=
      nulFree_join fun f hf => (hfs f hf).nulFree
    obtain ⟨p, hp, hstands⟩ := Parser.exists_stands (hjoin.head?_append_ne hne)
    have hlimited : (p.withLimit limit).Stands [] ((String.join fs).toList ++ rest.toList) :=
      ⟨hstands.closed, hstands.heads⟩
    obtain ⟨q, hq, hend⟩ := hlimited.filterTimes_ok fs hfs hne
    rw [List.nil_append] at hend
    refine ⟨p, q, by rwa [String.toList_append], hq, firstToken?_of_heads hend.heads, ?_⟩
    rw [hend.finish_eq_ok_iff, String.toList_eq_nil_iff]
  · rintro text p q h rfl hrun
    obtain ⟨before, rest, htext, hp⟩ := h.stands
    obtain ⟨u, rest', rfl, hq, hu⟩ := hp.of_filter (.inl hrun)
    rw [← List.append_assoc] at htext
    obtain ⟨s, rest, rfl, hs, rfl⟩ := exists_append_of_toList htext
    obtain ⟨before, filter, rfl, rfl, rfl⟩ := exists_append_of_toList hs
    have start := (CharCursor.place_of_heads hp.heads).2
    have stop := (CharCursor.place_of_heads hq.heads).2
    rw [← String.toList_append] at stop
    rw [Utf8.length_encodeAll_toList] at start stop
    exact ⟨before, filter, rest, rfl, start, stop, recognize_eq_ok_iff.2 (hu hrun)⟩

/-- A filter in front of a letter of two octets, and the parser behind it. -/
theorem filters_read_incrementally_one :
    ∃ p q, Parser.ofSource? (CharCursor.ofList "(a=ü)ü".toList) = .ok p ∧
      Parser.filter (p.withLimit 1) = .ok () q ∧
      q.cursor.current = ⟨.utfmb, "ü", 5, ⟨6, 8⟩⟩ ∧
      ∃ before filter rest, "(a=ü)ü" = before ++ filter ++ rest ∧
        q.cursor.current.span.start = (before ++ filter).utf8ByteSize ∧
        parse filter ⟨.codePoint, 1⟩ = .ok () := by
  have ok : ∀ f ∈ ["(a=ü)"], parse f ⟨.codePoint, 1⟩ = .ok () := by decide +kernel
  have rest : "ü".toList.head? ≠ some '\x00' := by decide
  obtain ⟨p, q, hp, hq, ht, -⟩ := (filters_read_incrementally 1).1 ["(a=ü)"] "ü" ok rest
  have first : firstToken? (String.join ["(a=ü)"]) "ü" = some ⟨.utfmb, "ü", 5, ⟨6, 8⟩⟩ := by
    decide +kernel
  have run : Parser.filter (p.withLimit 1) = .ok () q :=
    (Parser.filterTimes_one _).symm.trans hq
  have reached : Parser.Reached "(a=ü)ü" (p.withLimit 1) := .withLimit 1 (.start hp)
  obtain ⟨before, filter, rest, htext, -, hend, hok⟩ :=
    (filters_read_incrementally 1).2 _ _ q reached rfl run
  have current : q.cursor.current = ⟨.utfmb, "ü", 5, ⟨6, 8⟩⟩ :=
    (Option.some.inj (first.symm.trans ht)).symm
  exact ⟨p, q, hp, run, current, before, filter, rest, htext, hend, hok⟩

end LdapFilter
