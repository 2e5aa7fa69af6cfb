import LdapFilter.Proofs.Recording

/-!
# Calls of a parser

A parser may be called again after a failure: for a filter, for the end of its input, or for another
limit on nesting. Each call leaves it at rest: no filter is open, and its next token is the last one
that its source has given (`Parser.AtRest.call`). So it is at rest after any calls
(`Parser.AtRest.after`), and after a filter that fails its next token is the one at fault
(`Parser.AtRest.leftAt`).
-/

namespace LdapFilter

variable {σ : Type} [TokenSource σ]

namespace Parser

/-- What a parser may be called for. -/
inductive Call where
  | filter
  | finish
  | withLimit (limit : Nat)

/-- The answer to a call, and the parser as the call leaves it. -/
def call (p : Parser σ) : Call → Except ParseError Unit × Parser σ
  | .filter =>
    match Parser.filter p with
    | .ok _ q => (.ok (), q)
    | .error e q => (.error e, q)
  | .finish => (p.finish, p)
  | .withLimit limit => (.ok (), p.withLimit limit)

/-- The parser after calls, whatever the answers to them. -/
def after (p : Parser σ) : List Call → Parser σ
  | [] => p
  | k :: ks => after (p.call k).2 ks

theorem call_filter_of_ok {p q : Parser σ} (h : Parser.filter p = .ok () q) :
    p.call .filter = (.ok (), q) := by
  simp only [call, h]

theorem call_filter_of_error {p q : Parser σ} {e : ParseError}
    (h : Parser.filter p = .error e q) : p.call .filter = (.error e, q) := by
  simp only [call, h]

/-- How a call of `p` for a filter ends that has come as far as `m`: the filter fits, a construct is
lacking, no token can be read after that of `m`, or filters nest too deep. -/
inductive EndsAt (p : Parser σ) (m : Lookahead σ) : Except ParseError Unit × Parser σ → Prop where
  | fits : EndsAt p m (.ok (), ⟨m, p.depth, p.limit⟩)
  | lacks (construct : Construct) :
      EndsAt p m (.error (.unexpected construct m.current), ⟨m, p.depth, p.limit⟩)
  | stuck {e : LexError} {k : σ} (more : m.kind ≠ .eof)
      (next : TokenSource.next m.source = .error e k) :
      EndsAt p m (.error (.lexical e), ⟨⟨k, m.current⟩, p.depth, p.limit⟩)
  | tooDeep : EndsAt p m (.error (.nestingTooDeep p.limit m.current.position m.current.span),
      ⟨m, p.depth, p.limit⟩)

/-- A call for a filter takes the tokens of a path and ends there. -/
theorem exists_endsAt (p : Parser σ) :
    ∃ (ts : List Token) (m : Lookahead σ), Path (· = ·) p.cursor ts m ∧
      EndsAt p m (p.call .filter) := by
  obtain ⟨ts, m, v, hp, hv, hend, -⟩ :=
    FilterRule.tracked_self σ (p.limit - p.depth) p.depth p.limit p.cursor
  have run : v.Holds (.parser p.depth p.limit) m (Parser.filter p) := hv
  refine ⟨ts, m, hp, ?_⟩
  cases v with
  | fits =>
    rw [call_filter_of_ok run]
    exact .fits
  | lacks construct =>
    rw [call_filter_of_error run]
    exact .lacks construct
  | stuck =>
    obtain ⟨e, k, next, run⟩ := run
    rw [call_filter_of_error run]
    exact .stuck (hend rfl) next
  | tooDeep =>
    rw [call_filter_of_error run]
    exact .tooDeep

/-! ## The record -/

theorem ofSource?_unrecorded {s : σ} {p : Parser (Recorded σ)}
    (h : ofSource? (Recorded.ofSource s) = .ok p) : ofSource? s = .ok p.unrecorded := by
  unfold ofSource? Lookahead.ofSource? at h ⊢
  cases hn : TokenSource.next s with
  | ok t k =>
    rw [show TokenSource.next (Recorded.ofSource s) = _ from Recorded.next_of_ok hn []] at h
    cases h
    rfl
  | error e k =>
    rw [show TokenSource.next (Recorded.ofSource s) = _ from Recorded.next_of_error hn []] at h
    cases h

/-- A record changes no answer. -/
theorem call_unrecorded (p : Parser (Recorded σ)) (k : Call) :
    p.unrecorded.call k = ((p.call k).1, (p.call k).2.unrecorded) := by
  cases k with
  | finish => rfl
  | withLimit limit => rfl
  | filter =>
    obtain ⟨c, depth, limit⟩ := p
    have results := Recorded.inStep.filter (Recorded.beside_self c) depth limit
    generalize run : Parser.filter (⟨c, depth, limit⟩ : Parser (Recorded σ)) = result at results
    generalize run' : Parser.filter (⟨c.unrecorded, depth, limit⟩ : Parser σ) = result' at results
    show call ⟨c.unrecorded, depth, limit⟩ .filter = _
    cases results with
    | ok beside =>
      rw [call_filter_of_ok run, call_filter_of_ok run', Recorded.Beside.eq beside]
      rfl
    | error beside he =>
      rw [call_filter_of_error run, call_filter_of_error run', Recorded.Beside.eq beside, he.eq]
      rfl

theorem after_unrecorded (p : Parser (Recorded σ)) (ks : List Call) :
    p.unrecorded.after ks = (p.after ks).unrecorded := by
  induction ks generalizing p with
  | nil => rfl
  | cons k ks ih =>
    show after (p.unrecorded.call k).2 ks = _
    rw [call_unrecorded]
    exact ih (p.call k).2

end Parser

/-! ## The state after a call -/

/-- Between two calls no filter is open, and the next token is the last one of the record. -/
structure Parser.AtRest (p : Parser (Recorded σ)) : Prop where
  closed : p.depth = 0
  last : p.cursor.source.lastToken? = some p.cursor.current

/-- What an error says of the parser that a failed filter leaves: the error is at its next token, or
it is the last answer of the source. -/
inductive ParseError.LeftAt : ParseError → Parser (Recorded σ) → Prop where
  | lexical {e : LexError} {q : Parser (Recorded σ)}
      (latest : q.cursor.source.latest.head? = some (.error e)) : LeftAt (.lexical e) q
  | unexpected (construct : Construct) (q : Parser (Recorded σ)) :
      LeftAt (.unexpected construct q.cursor.current) q
  | nestingTooDeep (q : Parser (Recorded σ)) :
      LeftAt (.nestingTooDeep q.limit q.cursor.current.position q.cursor.current.span) q

namespace Parser.AtRest

variable {p : Parser (Recorded σ)}

theorem of_ofSource? {s : σ} (h : ofSource? (Recorded.ofSource s) = .ok p) : p.AtRest := by
  obtain ⟨closed, heads⟩ := heads_of_ofSource? h
  exact ⟨closed, Recorded.lastToken?_of_ok heads.next_eq⟩

/-- After a call for a filter the parser rests where the call has ended, and an error is there. -/
theorem filter (h : p.AtRest) :
    (p.call .filter).2.AtRest ∧
      ∀ e, (p.call .filter).1 = .error e → e.LeftAt (p.call .filter).2 := by
  obtain ⟨ts, m, path, ends⟩ := p.exists_endsAt
  have last : m.source.lastToken? = some m.current := path.lastToken?_eq h.last
  generalize p.call .filter = result at ends
  cases ends with
  | fits =>
    refine ⟨⟨h.closed, last⟩, ?_⟩
    rintro _ ⟨⟩
  | lacks construct =>
    refine ⟨⟨h.closed, last⟩, ?_⟩
    rintro _ ⟨⟩
    exact .unexpected construct ⟨m, p.depth, p.limit⟩
  | stuck more next =>
    refine ⟨⟨h.closed, (Recorded.lastToken?_of_error next).trans last⟩, ?_⟩
    rintro _ ⟨⟩
    exact .lexical (by rw [(Recorded.of_next_error next).2]; rfl)
  | tooDeep =>
    refine ⟨⟨h.closed, last⟩, ?_⟩
    rintro _ ⟨⟩
    exact .nestingTooDeep ⟨m, p.depth, p.limit⟩

theorem call (h : p.AtRest) (k : Call) : (p.call k).2.AtRest := by
  cases k with
  | filter => exact h.filter.1
  | finish => exact h
  | withLimit limit => exact ⟨h.closed, h.last⟩

theorem after (h : p.AtRest) (ks : List Call) : (p.after ks).AtRest := by
  induction ks generalizing p with
  | nil => exact h
  | cons k ks ih => exact ih (h.call k)

end Parser.AtRest

end LdapFilter
