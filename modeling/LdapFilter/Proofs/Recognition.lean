import LdapFilter.Proofs.CharReading
import LdapFilter.Proofs.FilterAcceptance
import LdapFilter.Proofs.FilterViability

/-!
# The recognizer and the grammar

The recognizer runs the rule of filters from the first token of its input and then wants the end.
So its answer is decided by the verdict of that run and the lookahead where it was reached, and a
text is accepted exactly if it is a filter of the grammar within the limit on nesting.
-/

namespace LdapFilter

open Grammar
open CharCursor (behind)

section Recognize

variable {σ : Type} [TokenSource σ] {limit : Nat} {s : σ} {c m : Lookahead σ}

/-- The recognizer runs the rule of filters from the first token. -/
theorem recognize_of_heads (hc : c.Heads s) :
    recognize limit s =
      match (FilterRule.within limit).val.run ⟨c, 0, limit⟩ with
      | .error e p => .error e p.cursor.source
      | .ok _ p =>
        match p.finish with
        | .ok _ => .ok () p.cursor.source
        | .error e => .error e p.cursor.source := by
  simp only [recognize, hc.next_eq]
  rfl

theorem recognize_of_error {e : LexError} {s' : σ} (h : TokenSource.next s = .error e s') :
    outcome (recognize limit s) = .error (.lexical e) := by
  simp only [recognize, h, outcome]

/-- A parser starts at the first token of its source, with no filter open. -/
theorem Parser.heads_of_ofSource? {p : Parser σ} (h : ofSource? s = .ok p) :
    p.depth = 0 ∧ p.cursor.Heads s := by
  unfold ofSource? Lookahead.ofSource? at h
  cases hn : TokenSource.next s with
  | error e k =>
    rw [hn] at h
    cases h
  | ok t k =>
    rw [hn] at h
    cases h
    exact ⟨rfl, hn⟩

/-- The token that an error names. -/
def ParseError.token? : ParseError → Option Token
  | unexpected _ found => some found
  | trailing rest => some rest
  | lexical _ | nestingTooDeep .. => none

/-- The error is at the token `t`, and names no other. -/
structure ParseError.Reports (e : ParseError) (t : Token) : Prop where
  span : e.span = .ok t.span
  position : e.position = t.position
  not_lexical : ¬e.isLexical
  token : ∀ u, e.token? = some u → u = t

/-- The answer of the recognizer where the rule of filters has reached its verdict at `m`. -/
def Verdict.Answers (limit : Nat) (m : Lookahead σ) (answer : Except ParseError Unit) :
    Verdict → Prop
  | fits => answer = if m.current.isEof then .ok () else .error (.trailing m.current)
  | lacks construct => answer = .error (.unexpected construct m.current)
  | stuck => ∃ e s, TokenSource.next m.source = .error e s ∧ answer = .error (.lexical e)
  | tooDeep => answer = .error (.nestingTooDeep limit m.current.position m.current.span)

theorem Verdict.Holds.answers {v : Verdict} (hc : c.Heads s)
    (h : v.Holds (.parser 0 limit) m ((FilterRule.within limit).val.run ⟨c, 0, limit⟩)) :
    v.Answers limit m (outcome (recognize limit s)) := by
  rw [recognize_of_heads hc]
  cases v with
  | fits =>
    simp only [Verdict.Holds] at h
    simp only [Verdict.Answers, h, Parser.finish, Parser.atEof, Lookahead.atEof]
    by_cases he : m.current.isEof
    · simp only [he, if_true, outcome]
    · simp only [he, outcome]
      rfl
  | lacks construct =>
    simp only [Verdict.Holds] at h
    simp only [Verdict.Answers, h, outcome]
  | stuck =>
    obtain ⟨e, s, hs, h⟩ := h
    exact ⟨e, s, hs, by simp only [h, outcome]⟩
  | tooDeep =>
    simp only [Verdict.Holds] at h
    simp only [Verdict.Answers, h, outcome]

namespace Verdict.Answers

variable {v : Verdict}

/-- A rule that fits leaves a complete filter, or a token too many. -/
theorem cases_fits {answer : Except ParseError Unit} (h : fits.Answers limit m answer) :
    (m.current.isEof ∧ answer = .ok ()) ∨ answer = .error (.trailing m.current) := by
  simp only [Answers] at h
  by_cases he : m.current.isEof
  · exact .inl ⟨he, by rw [h, if_pos he]⟩
  · exact .inr (by rw [h, if_neg he])

/-- Only a rule that fits at the end of the input makes the recognizer succeed. -/
theorem of_ok (h : v.Answers limit m (.ok ())) : v = .fits ∧ m.current.isEof := by
  cases v with
  | fits =>
    obtain ⟨he, -⟩ | h := h.cases_fits
    · exact ⟨rfl, he⟩
    · cases h
  | lacks => cases h
  | stuck =>
    obtain ⟨_, _, _, h⟩ := h
    cases h
  | tooDeep => cases h

theorem of_unexpected {construct : Construct} {t : Token}
    (h : v.Answers limit m (.error (.unexpected construct t))) :
    v = .lacks construct ∧ t = m.current := by
  cases v with
  | fits => obtain ⟨-, h⟩ | h := h.cases_fits <;> cases h
  | lacks =>
    cases h
    exact ⟨rfl, rfl⟩
  | stuck =>
    obtain ⟨_, _, _, h⟩ := h
    cases h
  | tooDeep => cases h

theorem of_lexical {e : LexError} (h : v.Answers limit m (.error (.lexical e))) :
    v = .stuck ∧ ∃ s, TokenSource.next m.source = .error e s := by
  cases v with
  | fits => obtain ⟨-, h⟩ | h := h.cases_fits <;> cases h
  | lacks => cases h
  | stuck =>
    obtain ⟨_, s, hs, h⟩ := h
    cases h
    exact ⟨rfl, s, hs⟩
  | tooDeep => cases h

theorem of_trailing {t : Token} (h : v.Answers limit m (.error (.trailing t))) :
    v = .fits ∧ t = m.current := by
  cases v with
  | fits =>
    obtain ⟨-, h⟩ | h := h.cases_fits
    · cases h
    · cases h
      exact ⟨rfl, rfl⟩
  | lacks => cases h
  | stuck =>
    obtain ⟨_, _, _, h⟩ := h
    cases h
  | tooDeep => cases h

theorem of_tooDeep {reported position : Nat} {span : Span}
    (h : v.Answers limit m (.error (.nestingTooDeep reported position span))) :
    v = .tooDeep ∧ span = m.current.span := by
  cases v with
  | fits => obtain ⟨-, h⟩ | h := h.cases_fits <;> cases h
  | lacks => cases h
  | stuck =>
    obtain ⟨_, _, _, h⟩ := h
    cases h
  | tooDeep =>
    cases h
    exact ⟨rfl, rfl⟩

/-- Unless a token cannot be taken, the token where the verdict was reached is reported. -/
theorem reports {e : ParseError} (h : v.Answers limit m (.error e)) (hv : v ≠ .stuck) :
    e.Reports m.current := by
  cases v with
  | fits =>
    obtain ⟨-, h⟩ | h := h.cases_fits
    · cases h
    · cases h
      exact ⟨rfl, rfl, nofun, fun _ hu => (Option.some.inj hu).symm⟩
  | lacks =>
    cases h
    exact ⟨rfl, rfl, nofun, fun _ hu => (Option.some.inj hu).symm⟩
  | stuck => exact absurd rfl hv
  | tooDeep =>
    cases h
    exact ⟨rfl, rfl, nofun, nofun⟩

/-- Unless a token cannot be taken, the answer says nothing of what comes after the token where the
verdict was reached. -/
theorem eq_of_current {n : Lookahead σ} {answer answer' : Except ParseError Unit}
    (h : v.Answers limit m answer) (h' : v.Answers limit n answer')
    (hcurrent : n.current = m.current) (hv : v ≠ .stuck) : answer' = answer := by
  cases v with
  | stuck => exact absurd rfl hv
  | fits =>
    simp only [Answers, hcurrent] at h h'
    rw [h, h']
  | lacks =>
    simp only [Answers, hcurrent] at h h'
    rw [h, h']
  | tooDeep =>
    simp only [Answers, hcurrent] at h h'
    rw [h, h']

end Verdict.Answers

/-- The run of filters takes tokens up to the one where its verdict is reached. -/
theorem exists_answers (limit : Nat) (hc : c.Heads s) :
    ∃ (ts : List Token) (m : Lookahead σ) (v : Verdict), Path (· = ·) c ts m ∧
      v.Answers limit m (outcome (recognize limit s)) ∧ (v = .stuck → m.kind ≠ .eof) := by
  obtain ⟨ts, m, v, hp, hv, hend, -⟩ := FilterRule.tracked_self σ limit 0 limit c
  exact ⟨ts, m, v, hp, hv.answers hc, hend⟩

end Recognize

theorem parse_codePoint (text : String) (limit : Nat) :
    parse text ⟨.codePoint, limit⟩ = outcome (recognize limit (behind [] text.toList)) :=
  rfl

/-- How a text is read that begins with a token: the rule of filters reads a part of it, and its
verdict there is the answer. -/
theorem exists_verdict {c : Lookahead CharCursor} {text : List Char} (limit : Nat)
    (hc : c.Heads (behind [] text)) :
    ∃ (u rest : List Char) (m : Lookahead CharCursor) (v : Verdict), text = u ++ rest ∧
      Reads c u m ∧ m.Heads (behind u rest) ∧
      v.Holds (.parser 0 limit) m ((FilterRule.within limit).val.run ⟨c, 0, limit⟩) ∧
      v.Viable (Filter limit) (fun s => ∃ n, Filter n s) u m := by
  obtain ⟨u, m, v, hr, hv, hu⟩ :=
    FilterRule.stays_within limit 0 c (SpellingSource.isSpelled hc.next_eq)
  obtain ⟨rest, he, hm⟩ := hr.exists_rest hc
  exact ⟨u, rest, m, v, he, hr, hm, hv, hu⟩

/-- The recognizer succeeds over exactly the filters of the grammar. -/
theorem recognize_eq_ok_iff {text : List Char} {limit : Nat} :
    outcome (recognize limit (behind [] text)) = .ok () ↔ Filter limit text := by
  constructor
  · intro hok
    obtain ⟨c, hc⟩ | ⟨e, k, he⟩ := Lookahead.heads_or_error (behind [] text)
    swap
    · cases hok.symm.trans (recognize_of_error he)
    obtain ⟨u, rest, m, v, he, -, hm, hv, hu⟩ := exists_verdict limit hc
    have ha := hv.answers hc
    rw [hok] at ha
    obtain ⟨rfl, hend⟩ := ha.of_ok
    obtain ⟨rfl, -⟩ | ⟨ch, tail, kind, -, hk, ht, -⟩ := CharCursor.heads_behind hm
    · rw [he, List.append_nil]
      exact hu
    · have spells : m.current.Spells ch := ht ▸ CharCursor.spells_tokenBehind hk
      exact absurd (of_decide_eq_true hend) spells.kind_ne_eof
  · intro hf
    obtain ⟨c, hc⟩ : ∃ c : Lookahead CharCursor, c.Heads (behind [] text) :=
      exists_heads hf.nulFree.head?_ne
    obtain ⟨m, hr, hm⟩ := exists_reads hf.nulFree hc
    have hv : Verdict.fits.Holds (.parser 0 limit) m
        ((FilterRule.within limit).val.run ⟨c, 0, limit⟩) :=
      FilterRule.accepts_within hr hf
    have hend : m.current.isEof := decide_eq_true hm
    have ha := hv.answers hc
    rwa [Verdict.Answers, if_pos hend] at ha

/-- **The language of the recognizer.** A text is accepted exactly if it is a filter of at most
`limit` filters inside one another. -/
theorem parse_eq_ok_iff (text : String) (limit : Nat) :
    parse text ⟨.codePoint, limit⟩ = .ok () ↔ Filter limit text.toList := by
  rw [parse_codePoint]
  exact recognize_eq_ok_iff

end LdapFilter
