import LdapFilter.Proofs.Recognition

/-!
# Sources in step

Two sources are in step if a call of both gives tokens that no rule can tell apart, or fails for
both, and leaves them in step (`InStep`). A rule then does the same over the one as over the other:
it takes tokens of the one where it takes the related tokens of the other (`InStep.path`), comes to
the same verdict, and leaves the sources in step (`InStep.exists_verdict`). So results and answers
differ only as much as the tokens and the lexical errors do (`InStep.results`, `InStep.answers`).
-/

namespace LdapFilter

variable {σ σ' τ τ' : Type} [TokenSource σ] [TokenSource σ'] {T : Token → Token → Prop}
  {E : LexError → LexError → Prop} {R : σ → σ' → Prop}

/-- A call of two sources that are related by `R` leaves them so. It gives tokens that are related
by `T`, and that no rule can tell apart, or errors that are related by `E`. -/
structure InStep (T : Token → Token → Prop) (E : LexError → LexError → Prop) (R : σ → σ' → Prop) :
    Prop where
  alike : ∀ {t t'}, T t t' → t.Alike t'
  of_ok : ∀ {s s' t k}, R s s' → TokenSource.next s = .ok t k →
    ∃ t' k', TokenSource.next s' = .ok t' k' ∧ T t t' ∧ R k k'
  of_error : ∀ {s s' e k}, R s s' → TokenSource.next s = .error e k →
    ∃ e' k', TokenSource.next s' = .error e' k' ∧ E e e' ∧ R k k'

/-- Lookaheads at related tokens, in front of related sources. -/
structure Lookahead.Beside (T : Token → Token → Prop) (R : σ → σ' → Prop) (c : Lookahead σ)
    (d : Lookahead σ') : Prop where
  current : T c.current d.current
  source : R c.source d.source

/-- Errors of one kind, at related tokens or with related lexical errors. -/
inductive ParseError.Matches (T : Token → Token → Prop) (E : LexError → LexError → Prop) :
    ParseError → ParseError → Prop where
  | lexical {e e' : LexError} (h : E e e') : Matches T E (.lexical e) (.lexical e')
  | unexpected (construct : Construct) {t t' : Token} (h : T t t') :
      Matches T E (.unexpected construct t) (.unexpected construct t')
  | nestingTooDeep (limit : Nat) {t t' : Token} (h : T t t') :
      Matches T E (.nestingTooDeep limit t.position t.span)
        (.nestingTooDeep limit t'.position t'.span)
  | trailing {t t' : Token} (h : T t t') : Matches T E (.trailing t) (.trailing t')

theorem ParseError.Matches.eq {e e' : ParseError} (h : e.Matches (· = ·) (· = ·) e') : e' = e := by
  cases h with
  | lexical h => rw [h]
  | unexpected construct h => rw [h]
  | nestingTooDeep limit h => rw [h]
  | trailing h => rw [h]

/-- Results at lookaheads beside one another: both good, or with errors that match. -/
inductive ResultsMatch (F : Frame σ τ) (F' : Frame σ' τ') (T : Token → Token → Prop)
    (E : LexError → LexError → Prop) (R : σ → σ' → Prop) :
    EStateM.Result ParseError τ Unit → EStateM.Result ParseError τ' Unit → Prop where
  | ok {m : Lookahead σ} {n : Lookahead σ'} (beside : m.Beside T R n) :
      ResultsMatch F F' T E R (.ok () (F.put m)) (.ok () (F'.put n))
  | error {m : Lookahead σ} {n : Lookahead σ'} {e e' : ParseError} (beside : m.Beside T R n)
      (h : e.Matches T E e') :
      ResultsMatch F F' T E R (.error e (F.put m)) (.error e' (F'.put n))

/-- Two answers: both good, or errors that match. -/
inductive AnswersMatch (T : Token → Token → Prop) (E : LexError → LexError → Prop) :
    Except ParseError Unit → Except ParseError Unit → Prop where
  | ok : AnswersMatch T E (.ok ()) (.ok ())
  | error {e e' : ParseError} (h : e.Matches T E e') : AnswersMatch T E (.error e) (.error e')

namespace InStep

variable {c m : Lookahead σ} {d n : Lookahead σ'} {s : σ} {s' : σ'}

/-! ## Runs in step -/

theorem exists_heads (h : InStep T E R) (hs : R s s') (hc : c.Heads s) :
    ∃ d : Lookahead σ', d.Heads s' ∧ c.Beside T R d := by
  obtain ⟨t', k', hd, ht, hk⟩ := h.of_ok hs hc.next_eq
  exact ⟨⟨k', t'⟩, hd, ht, hk⟩

/-- The tokens of the other source are taken one by one. -/
theorem path {ts : List Token} (h : InStep T E R) (hp : Path (· = ·) c ts m)
    (hcd : c.Beside T R d) :
    ∃ n, Path (fun t' t => T t t') d ts n ∧ m.Beside T R n := by
  induction hp generalizing d with
  | nil => exact ⟨d, .nil d, hcd⟩
  | cons label taken _ ih =>
    obtain ⟨d', hd', beside⟩ := h.exists_heads hcd.source taken.2
    obtain ⟨n, path, hn⟩ := ih beside
    refine ⟨n, .cons (label ▸ hcd.current) ⟨?_, hd'⟩ path, hn⟩
    rw [Lookahead.kind, (h.alike hcd.current).kind]
    exact taken.1

/-- A run over the one source that is tracked by a run over the other comes to its verdict where
that one does. -/
theorem exists_verdict {F : Frame σ τ} {F' : Frame σ' τ'} {atOnce : Prop}
    {result : EStateM.Result ParseError τ Unit}
    {run' : Lookahead σ' → EStateM.Result ParseError τ' Unit} (h : InStep T E R)
    (ht : Tracks F F' True atOnce c result run') (hcd : c.Beside T R d) :
    ∃ (ts : List Token) (m : Lookahead σ) (n : Lookahead σ') (v : Verdict),
      Path (· = ·) c ts m ∧ Path (fun t' t => T t t') d ts n ∧ m.Beside T R n ∧
      v.Holds F m result ∧ v.Holds F' n (run' d) ∧ (v = .stuck → m.kind ≠ .eof) := by
  obtain ⟨ts, m, v, hp, hv, hend, -, ht⟩ := ht
  obtain ⟨n, hq, hmn⟩ := h.path hp hcd
  have alike : Path (fun t' t => Token.Alike t t') d ts n := by
    apply hq.relabel (List.forall₂_same.2 fun t _ => rfl)
    rintro t' t _ ht rfl
    exact h.alike ht
  have stuck (hv' : v = .stuck) : n.Stuck := by
    subst hv'
    obtain ⟨e, k, he, -⟩ := hv
    obtain ⟨e', k', he', -⟩ := h.of_error hmn.source he
    exact ⟨e', k', he'⟩
  have hv' := ht d n alike (fun _ => h.alike hmn.current) stuck fun _ => trivial
  exact ⟨ts, m, n, v, hp, hq, hmn, hv, hv', hend⟩

/-- One verdict at lookaheads beside one another gives results that match. -/
theorem results_of_holds {F : Frame σ τ} {F' : Frame σ' τ'} {v : Verdict}
    {result : EStateM.Result ParseError τ Unit} {result' : EStateM.Result ParseError τ' Unit}
    (h : InStep T E R) (hlimit : F'.limit = F.limit) (hmn : m.Beside T R n)
    (hv : v.Holds F m result) (hv' : v.Holds F' n result') :
    ResultsMatch F F' T E R result result' := by
  cases v with
  | fits =>
    cases hv
    cases hv'
    exact .ok hmn
  | lacks construct =>
    cases hv
    cases hv'
    exact .error hmn (.unexpected construct hmn.current)
  | stuck =>
    obtain ⟨e, k, he, rfl⟩ := hv
    obtain ⟨e', k', he', rfl⟩ := hv'
    obtain ⟨_, _, hnext, hee', hkk'⟩ := h.of_error hmn.source he
    obtain ⟨rfl, rfl⟩ := EStateM.Result.error.inj (he'.symm.trans hnext)
    have beside : Lookahead.Beside T R ⟨k, m.current⟩ ⟨k', n.current⟩ := ⟨hmn.current, hkk'⟩
    exact .error beside (.lexical hee')
  | tooDeep =>
    cases hv
    cases hv'
    rw [hlimit]
    exact .error hmn (.nestingTooDeep F.limit hmn.current)

/-- Rules that track one another give results that match. -/
theorem results {F : Frame σ τ} {F' : Frame σ' τ'} {atOnce : Prop}
    {result : EStateM.Result ParseError τ Unit}
    {run' : Lookahead σ' → EStateM.Result ParseError τ' Unit} (h : InStep T E R)
    (hlimit : F'.limit = F.limit) (ht : Tracks F F' True atOnce c result run')
    (hcd : c.Beside T R d) : ResultsMatch F F' T E R result (run' d) := by
  obtain ⟨ts, m, n, v, -, -, hmn, hv, hv', -⟩ := h.exists_verdict ht hcd
  exact h.results_of_holds hlimit hmn hv hv'

/-- Filters are read with results that match. -/
theorem filter (h : InStep T E R) (hcd : c.Beside T R d) (depth limit : Nat) :
    ResultsMatch (.parser depth limit) (.parser depth limit) T E R
      (Parser.filter ⟨c, depth, limit⟩) (Parser.filter ⟨d, depth, limit⟩) := by
  have tracks : Tracks (.parser depth limit) (.parser depth limit) True (limit - depth = 0) c
      (Parser.filter ⟨c, depth, limit⟩)
      fun d => Parser.filter (⟨d, depth, limit⟩ : Parser σ') :=
    FilterRule.tracked_self σ' (limit - depth) depth limit c
  exact h.results rfl tracks hcd

/-! ## Answers in step -/

theorem answers_of_verdict {v : Verdict} {limit : Nat} {answer answer' : Except ParseError Unit}
    (h : InStep T E R) (hmn : m.Beside T R n) (ha : v.Answers limit m answer)
    (ha' : v.Answers limit n answer') : AnswersMatch T E answer answer' := by
  cases v with
  | fits =>
    have ends : n.current.isEof = m.current.isEof := by
      rw [Token.isEof, Token.isEof, (h.alike hmn.current).kind]
    simp only [Verdict.Answers, ends] at ha ha'
    by_cases he : m.current.isEof
    · rw [ha, ha', if_pos he, if_pos he]
      exact .ok
    · rw [ha, ha', if_neg he, if_neg he]
      exact .error (.trailing hmn.current)
  | lacks construct =>
    cases ha
    cases ha'
    exact .error (.unexpected construct hmn.current)
  | stuck =>
    obtain ⟨e, k, he, rfl⟩ := ha
    obtain ⟨e', k', he', rfl⟩ := ha'
    obtain ⟨_, _, hnext, hee', -⟩ := h.of_error hmn.source he
    obtain ⟨rfl, rfl⟩ := EStateM.Result.error.inj (he'.symm.trans hnext)
    exact .error (.lexical hee')
  | tooDeep =>
    cases ha
    cases ha'
    exact .error (.nestingTooDeep limit hmn.current)

/-- The recognizer gives answers that match over sources in step. -/
theorem answers (h : InStep T E R) (hs : R s s') (limit : Nat) :
    AnswersMatch T E (outcome (recognize limit s)) (outcome (recognize limit s')) := by
  obtain ⟨c, hc⟩ | ⟨e, k, he⟩ := Lookahead.heads_or_error s
  · obtain ⟨d, hd, hcd⟩ := h.exists_heads hs hc
    obtain ⟨ts, m, n, v, -, -, hmn, hv, hv', -⟩ :=
      h.exists_verdict (FilterRule.tracked_self σ' limit 0 limit c) hcd
    exact h.answers_of_verdict hmn (hv.answers hc) (hv'.answers hd)
  · obtain ⟨e', k', he', hee', -⟩ := h.of_error hs he
    rw [recognize_of_error he, recognize_of_error he']
    exact .error (.lexical hee')

end InStep

end LdapFilter
