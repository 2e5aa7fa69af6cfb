import LdapFilter.Proofs.Continuation

/-!
# Filters cut short and texts that go on after a filter

As long as a text is the beginning of a filter, the run over it follows the filter: it neither fits
before the filter ends, nor lacks the character that comes next in it, nor nests too deep
(`stuck_or_lacks_of_filter`). So a filter that is cut short is refused at the end of what is left of
it, and a text that goes on after a filter at the character right after it.
-/

namespace LdapFilter

open Grammar
open CharCursor (behind)

variable {c m : Lookahead CharCursor} {u rest tail : List Char} {ch : Char} {limit : Nat}
  {v : Verdict}

/-- Inside a filter that goes on with `ch` a run stops only where another character comes next, or
where none can be read after `ch`. -/
theorem stuck_or_lacks_of_filter (hf : Filter limit (u ++ ch :: tail)) (hr : Reads c u m)
    (hm : m.Heads (behind u rest))
    (hv : v.Holds (.parser 0 limit) m ((FilterRule.within limit).val.run ⟨c, 0, limit⟩))
    (hu : v.Viable (Filter limit) (fun s => ∃ n, Filter n s) u m) :
    v = .stuck ∨ (∃ construct, v = .lacks construct) ∧ rest.head? ≠ some ch := by
  cases v with
  | fits => cases Filter.eq_nil_of_append hu hf
  | stuck => exact .inl rfl
  | lacks construct =>
    refine .inr ⟨⟨construct, rfl⟩, ?_⟩
    intro hch
    obtain ⟨rest, rfl⟩ : ∃ left, rest = ch :: left := ⟨rest.tail, List.eq_cons_of_mem_head? hch⟩
    have spells : m.current.Spells ch := CharCursor.spells_of_heads hm
    apply not_filter_of_lacks hr hv _ hf
    intro n hn
    exact spells.alike (CharCursor.spells_of_heads hn)
  | tooDeep => exact absurd hf (not_filter_of_tooDeep hr hv)

/-- No token can be read after a token if the text goes on with NUL there, and only then. -/
theorem nul_of_stuck {e : LexError} {k : CharCursor} (hm : m.Heads (behind u (ch :: rest)))
    (h : TokenSource.next m.source = .error e k) :
    ∃ left, rest = '\x00' :: left ∧
      e = .invalidCharacter '\x00' (u ++ [ch]).length (Utf8.encodeAll (u ++ [ch])).length := by
  obtain ⟨h0, -⟩ | ⟨_, _, _, h0, -, -, hs⟩ := CharCursor.heads_behind hm
  · cases h0
  · cases h0
    rw [hs] at h
    obtain ⟨left, rfl⟩ := CharCursor.nul_of_error h
    obtain ⟨rfl, -⟩ := EStateM.Result.error.inj (h.symm.trans (CharCursor.next_behind_nul ..))
    exact ⟨left, rfl, rfl⟩

/-- A filter that is cut short is refused at its end. -/
theorem recognize_of_cut (hf : Filter limit (u ++ ch :: tail)) :
    ∃ construct, outcome (recognize limit (behind [] u)) =
      .error (.unexpected construct (.eof u.length (Utf8.encodeAll u).length)) := by
  have hu : NulFree u := (nulFree_append.1 hf.nulFree).1
  obtain ⟨c, hc⟩ : ∃ c : Lookahead CharCursor, c.Heads (behind [] u) := exists_heads hu.head?_ne
  obtain ⟨w, rest, m, v, rfl, hr, hm, hv, hviable⟩ := exists_verdict limit hc
  have ha := hv.answers hc
  cases rest with
  | nil =>
    rw [List.append_nil] at hf ha ⊢
    obtain ⟨-, eof⟩ | ⟨_, _, _, h, -⟩ := CharCursor.heads_behind hm
    swap
    · cases h
    obtain rfl | ⟨⟨construct, rfl⟩, -⟩ := stuck_or_lacks_of_filter hf hr hm hv hviable
    · obtain ⟨_, _, spells, -⟩ := hviable
      exact absurd (congrArg Token.kind eof) spells.kind_ne_eof
    · exact ⟨construct, eof ▸ ha⟩
  | cons next left =>
    have hf : Filter limit (w ++ next :: (left ++ ch :: tail)) := by simpa using hf
    obtain rfl | ⟨-, hne⟩ := stuck_or_lacks_of_filter hf hr hm hv hviable
    · obtain ⟨e, k, he, -⟩ := hv
      obtain ⟨_, rfl, -⟩ := nul_of_stuck hm he
      simp at hu
    · exact absurd rfl hne

/-- A text that goes on after a filter is refused at the token after the filter. -/
theorem recognize_of_more {t : List Char} (hf : Filter limit u) (ht : t ≠ [])
    (hne : t.head? ≠ some '\x00') :
    ∃ m : Lookahead CharCursor, m.Heads (behind u t) ∧
      outcome (recognize limit (behind [] (u ++ t))) = .error (.trailing m.current) := by
  have hu := hf.nulFree
  obtain ⟨c, hc⟩ : ∃ c : Lookahead CharCursor, c.Heads (behind [] (u ++ t)) :=
    exists_heads (hu.head?_append_ne hne)
  obtain ⟨m, hr, hm⟩ := exists_reads_to hu hne hc
  have hv : Verdict.fits.Holds (.parser 0 limit) m
      ((FilterRule.within limit).val.run ⟨c, 0, limit⟩) := FilterRule.accepts_within hr hf
  have ha := hv.answers hc
  obtain ⟨ch, t, rfl⟩ := List.exists_cons_of_ne_nil ht
  have spells : m.current.Spells ch := CharCursor.spells_of_heads hm
  have more : ¬m.current.isEof := fun h => spells.kind_ne_eof (of_decide_eq_true h)
  rw [Verdict.Answers, if_neg more] at ha
  exact ⟨m, hm, ha⟩

/-- What is read of a text lies before the first NUL. -/
theorem exists_append_of_nul {w t : List Char} (hw : NulFree w)
    (h : u ++ '\x00' :: t = w ++ rest) : ∃ left, u = w ++ left ∧ rest = left ++ '\x00' :: t := by
  obtain ⟨left, rfl, h0⟩ | ⟨left, rfl, h0⟩ := List.append_eq_append_iff.1 h
  · cases left with
    | nil => exact ⟨[], by simp, by simpa using h0.symm⟩
    | cons ch left =>
      obtain ⟨rfl, -⟩ := List.cons.inj h0
      simp at hw
  · exact ⟨left, rfl, h0⟩

/-- Where NUL comes after a filter, the last token of the filter cannot be taken. -/
theorem recognize_of_nul (hf : Filter limit u) (t : List Char) :
    outcome (recognize limit (behind [] (u ++ '\x00' :: t))) =
      .error (.lexical (.invalidCharacter '\x00' u.length (Utf8.encodeAll u).length)) := by
  obtain ⟨c, hc⟩ : ∃ c : Lookahead CharCursor, c.Heads (behind [] (u ++ '\x00' :: t)) := by
    apply exists_heads
    cases hf with
    | mk => simp
  obtain ⟨w, rest, m, v, he, hr, hm, hv, hviable⟩ := exists_verdict limit hc
  have ha := hv.answers hc
  obtain ⟨left, rfl, rfl⟩ := exists_append_of_nul hr.nulFree he
  cases left with
  | nil => cases (CharCursor.next_behind_nul w t).symm.trans hm
  | cons ch left =>
    obtain rfl | ⟨-, hne⟩ := stuck_or_lacks_of_filter hf hr hm hv hviable
    swap
    · exact absurd rfl hne
    obtain ⟨e, k, he, ha⟩ := ha
    obtain ⟨_, hnul, rfl⟩ := nul_of_stuck hm he
    -- the token before the NUL is the last one of the filter
    cases left with
    | nil => exact ha
    | cons next left =>
      obtain ⟨rfl, -⟩ := List.cons.inj hnul
      have hu := hf.nulFree
      simp at hu

/-- What lies before a token too many is a filter. -/
theorem filter_of_trailing {text : List Char} {token : Token}
    (h : outcome (recognize limit (behind [] text)) = .error (.trailing token)) :
    ∃ u rest, text = u ++ rest ∧ token.span.start = (Utf8.encodeAll u).length ∧
      Filter limit u := by
  obtain ⟨c, hc⟩ | ⟨e, k, he⟩ := Lookahead.heads_or_error (behind [] text)
  · obtain ⟨u, rest, m, v, htext, -, hm, hv, hviable⟩ := exists_verdict limit hc
    have ha := hv.answers hc
    rw [h] at ha
    obtain ⟨rfl, rfl⟩ := ha.of_trailing
    exact ⟨u, rest, htext, (CharCursor.place_of_heads hm).2, hviable⟩
  · cases h.symm.trans (recognize_of_error he)

/-- **Cutting and extending.** A filter that is cut short is refused at the end of what is left of
it, and a text that goes on after a filter is refused right after the filter: at its next character,
or because of a NUL there. What lies before a token too many is a filter. -/
theorem parse_cut_or_extended (limit : Nat) :
    (∀ s, parse s ⟨.codePoint, limit⟩ = .ok () →
      (∀ p q, s = p ++ q → q ≠ "" → ∃ expected, parse p ⟨.codePoint, limit⟩ =
        .error (.unexpected expected (.eof p.length p.utf8ByteSize))) ∧
      (∀ t, t.toList.head? = some '\x00' → parse (s ++ t) ⟨.codePoint, limit⟩ =
        .error (.lexical (.invalidCharacter '\x00' s.length s.utf8ByteSize))) ∧
      ∀ t, t ≠ "" → t.toList.head? ≠ some '\x00' → ∃ token, firstToken? s t = some token ∧
        parse (s ++ t) ⟨.codePoint, limit⟩ = .error (.trailing token)) ∧
    ∀ text token, parse text ⟨.codePoint, limit⟩ = .error (.trailing token) →
      ∃ s t, text = s ++ t ∧ s.utf8ByteSize = token.span.start ∧
        parse s ⟨.codePoint, limit⟩ = .ok () := by
  constructor
  · intro s hs
    have hf : Filter limit s.toList := recognize_eq_ok_iff.1 hs
    refine ⟨?_, ?_, ?_⟩
    · rintro p q rfl hq
      rw [String.toList_append] at hf
      obtain ⟨ch, tail, hcons⟩ := List.exists_cons_of_ne_nil (mt String.toList_eq_nil_iff.1 hq)
      rw [hcons] at hf
      obtain ⟨construct, h⟩ := recognize_of_cut hf
      rw [Utf8.length_encodeAll_toList, String.length_toList] at h
      exact ⟨construct, h⟩
    · intro t ht
      obtain ⟨tail, hcons⟩ : ∃ tail, t.toList = '\x00' :: tail :=
        ⟨t.toList.tail, List.eq_cons_of_mem_head? ht⟩
      have h := recognize_of_nul hf tail
      rw [← hcons, ← String.toList_append, Utf8.length_encodeAll_toList, String.length_toList] at h
      exact h
    · intro t ht hne
      obtain ⟨m, hm, h⟩ := recognize_of_more hf (mt String.toList_eq_nil_iff.1 ht) hne
      rw [← String.toList_append] at h
      exact ⟨m.current, firstToken?_of_heads hm, h⟩
  · intro text token h
    obtain ⟨u, rest, htext, hstart, hf⟩ := filter_of_trailing h
    obtain ⟨s, t, rfl, rfl, rfl⟩ := exists_append_of_toList htext
    rw [Utf8.length_encodeAll_toList] at hstart
    exact ⟨s, t, rfl, hstart.symm, recognize_eq_ok_iff.2 hf⟩

/-- A filter without its last two characters, and with a letter of two octets after it. -/
theorem parse_cut_or_extended_item :
    (∃ expected, parse "(a=)" ⟨.codePoint, 1⟩ = .ok () ∧
      parse "(a" ⟨.codePoint, 1⟩ = .error (.unexpected expected (.eof 2 2))) ∧
    parse "(a=)ü" ⟨.codePoint, 1⟩ = .error (.trailing ⟨.utfmb, "ü", 4, ⟨4, 6⟩⟩) := by
  have ok : parse "(a=)" ⟨.codePoint, 1⟩ = .ok () := by decide +kernel
  obtain ⟨cut, -, extended⟩ := (parse_cut_or_extended 1).1 "(a=)" ok
  constructor
  · obtain ⟨expected, h⟩ := cut "(a" "=)" rfl (by decide)
    exact ⟨expected, ok, h⟩
  · obtain ⟨token, ht, h⟩ := extended "ü" (by decide) (by decide)
    have first : firstToken? "(a=)" "ü" = some ⟨.utfmb, "ü", 4, ⟨4, 6⟩⟩ := by decide +kernel
    cases first.symm.trans ht
    exact h

end LdapFilter
