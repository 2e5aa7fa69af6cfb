import LdapFilter.Proofs.ParserCalls
import LdapFilter.Token.Replay

/-!
# The count of open filters

A parser counts the filters that are open, and gives the count back with its answer. To see what it
is on the way, the source is made to carry the values that it takes (`Counted`), and the rule of
filters to note it wherever a filter is opened and wherever one is closed
(`FilterRule.countedWithin`). The notes change nothing else, and the count goes up by one below the
limit and down by one above zero (`Steady`): there is a lemma for each construct by which filters
are made of filters, and an induction on the levels that are left (`FilterRule.watches_within`).
-/

namespace LdapFilter

variable {σ : Type}

/-! ## Sources that carry counts -/

/-- A source that carries the values that a count has taken, the last one first. -/
structure Counted (σ : Type) where
  source : σ
  counts : List Nat

/-- The lookahead over a source that carries counts. -/
def Lookahead.counted (c : Lookahead σ) (counts : List Nat) : Lookahead (Counted σ) :=
  ⟨⟨c.source, counts⟩, c.current⟩

/-- That a lookahead stands at the same place over a source that carries `counts`. -/
abbrev Counted.Beside (counts : List Nat) (m : Lookahead σ) (n : Lookahead (Counted σ)) : Prop :=
  m.Beside (· = ·) (fun s k => k = ⟨s, counts⟩) n

theorem Counted.Beside.eq {counts : List Nat} {m : Lookahead σ} {n : Lookahead (Counted σ)}
    (h : Counted.Beside counts m n) : n = m.counted counts := by
  obtain ⟨source, current⟩ := n
  obtain ⟨rfl, rfl⟩ := h
  rfl

namespace Parser

/-- The parser over a source that carries its count behind the counts before. -/
def counted (p : Parser σ) (before : List Nat) : Parser (Counted σ) :=
  ⟨p.cursor.counted (p.depth :: before), p.depth, p.limit⟩

/-- The parser without the counts that its source carries. -/
def uncounted (p : Parser (Counted σ)) : Parser σ :=
  ⟨⟨p.cursor.source.source, p.cursor.current⟩, p.depth, p.limit⟩

/-- The parser with its count noted. -/
def noted (p : Parser (Counted σ)) : Parser (Counted σ) :=
  p.uncounted.counted p.cursor.source.counts

end Parser

/-! ## Steady counts -/

/-- The values of a count, the last one first, that starts with none open, goes up by one where it
is below the limit, and down by one where it is above zero. -/
inductive Steady (limit : Nat) : List Nat → Prop where
  | start : Steady limit [0]
  | opened {n : Nat} {before : List Nat} (h : Steady limit (n :: before)) (room : n < limit) :
      Steady limit ((n + 1) :: n :: before)
  | closed {n : Nat} {before : List Nat} (h : Steady limit ((n + 1) :: before)) :
      Steady limit (n :: (n + 1) :: before)

theorem Steady.le {limit : Nat} {counts : List Nat} (h : Steady limit counts) :
    ∀ n ∈ counts, n ≤ limit := by
  induction h with
  | start => exact List.forall_mem_singleton.2 (Nat.zero_le limit)
  | opened _ room ih => exact List.forall_mem_cons.2 ⟨room, ih⟩
  | closed _ ih =>
    have last := (List.forall_mem_cons.1 ih).1
    exact List.forall_mem_cons.2 ⟨by omega, ih⟩

/-- The same count of open filters, and the same limit. -/
structure Parser.SameFrame (p q : Parser σ) : Prop where
  depth : q.depth = p.depth
  limit : q.limit = p.limit

theorem Parser.SameFrame.refl (p : Parser σ) : p.SameFrame p :=
  ⟨rfl, rfl⟩

theorem Parser.SameFrame.trans {p q r : Parser σ} (h : p.SameFrame q) (h' : q.SameFrame r) :
    p.SameFrame r :=
  ⟨h'.depth.trans h.depth, h'.limit.trans h.limit⟩

/-- The result of a run of `p` and the result of a run with notes: they differ in the notes only,
the count is what it was, and it has been steady on the way. -/
inductive Watched (p : Parser σ) : EStateM.Result ParseError (Parser σ) Unit →
    EStateM.Result ParseError (Parser (Counted σ)) Unit → Prop where
  | ok {q : Parser σ} {before : List Nat} (frame : p.SameFrame q)
      (steady : Steady q.limit (q.depth :: before)) :
      Watched p (.ok () q) (.ok () (q.counted before))
  | error {q : Parser σ} {before : List Nat} (e : ParseError) (frame : p.SameFrame q)
      (steady : Steady q.limit (q.depth :: before)) :
      Watched p (.error e q) (.error e (q.counted before))

namespace Watched

variable {p q : Parser σ} {result no : EStateM.Result ParseError (Parser σ) Unit}
  {result' no' : EStateM.Result ParseError (Parser (Counted σ)) Unit}

theorem of_frame (h : Watched q result result') (frame : p.SameFrame q) :
    Watched p result result' := by
  cases h with
  | ok frame' steady => exact .ok (frame.trans frame') steady
  | error e frame' steady => exact .error e (frame.trans frame') steady

theorem ite {c : Prop} [Decidable c] (hyes : c → Watched p result result')
    (hno : ¬c → Watched p no no') :
    Watched p (if c then result else no) (if c then result' else no') := by
  by_cases h : c
  · rw [if_pos h, if_pos h]
    exact hyes h
  · rw [if_neg h, if_neg h]
    exact hno h

end Watched

/-! ## The source below the counts -/

variable [TokenSource σ]

namespace Counted

/-- The next token of the source, which leaves the counts alone. -/
def nextToken : EStateM LexError (Counted σ) Token := fun s =>
  match TokenSource.next s.source with
  | .ok t k => .ok t ⟨k, s.counts⟩
  | .error e k => .error e ⟨k, s.counts⟩

instance : TokenSource (Counted σ) where
  next := nextToken
  position s := TokenSource.position s.source
  remaining s := TokenSource.remaining s.source
  remaining_next {s s' t} h := by
    unfold nextToken at h
    split at h
    · next hs =>
      cases h
      exact TokenSource.remaining_next hs
    · cases h

/-- A source is in step with itself that carries counts. -/
theorem inStep (counts : List Nat) :
    InStep (· = ·) (· = ·) fun (s : σ) (k : Counted σ) => k = ⟨s, counts⟩ where
  alike := by
    rintro t _ rfl
    exact .refl t
  of_ok := by
    rintro s _ t k rfl h
    refine ⟨t, ⟨k, counts⟩, ?_, rfl, rfl⟩
    show nextToken _ = _
    simp only [nextToken, h]
  of_error := by
    rintro s _ e k rfl h
    refine ⟨e, ⟨k, counts⟩, ?_, rfl, rfl⟩
    show nextToken _ = _
    simp only [nextToken, h]

end Counted

/-! ## The rule of filters with notes -/

namespace FilterRule

/-- Notes the count. -/
def note : FilterRule (Counted σ) Unit where
  run p := .ok () p.noted
  size_le h := by cases h; exact Nat.le_refl _

/-- Reads what `rule` reads, and notes the count however that ends. -/
def thenNote (rule : FilterRule (Counted σ) Unit) : FilterRule (Counted σ) Unit where
  run p :=
    match rule.run p with
    | .ok _ q => .ok () q.noted
    | .error e q => .error e q.noted
  size_le h := by
    split at h
    · next hs =>
      cases h
      have := rule.size_le hs
      exact this
    · cases h

theorem consumes_thenNote {rule : FilterRule (Counted σ) Unit} (h : rule.Consumes) :
    (thenNote rule).Consumes := by
  intro p a p' hp
  simp only [thenNote] at hp
  split at hp
  · next hs =>
    cases hp
    have := h _ _ _ hs
    exact this
  · cases hp

theorem consumes_note_bind {rule : FilterRule (Counted σ) Unit} (h : rule.Consumes) :
    (note >>= fun _ => rule).Consumes :=
  fun p a p' hp => h p.noted a p' hp

/-- A filter of at most `levels` filters inside one another, with a note wherever a filter is opened
and wherever one is closed. -/
def countedWithin : (levels : Nat) → { rule : FilterRule (Counted σ) Unit // rule.Consumes }
  | 0 => ⟨tooDeep, consumes_tooDeep⟩
  | levels + 1 =>
    ⟨thenNote (nested fun _ => note >>= fun _ =>
        parenthesized (countedWithin levels).val (countedWithin levels).property),
      consumes_thenNote (consumes_nested (consumes_note_bind
        (consumes_parenthesized (countedWithin levels).property)))⟩

end FilterRule

/-! ## Runs with notes -/

/-- From `p` on the second rule does what the first does, and its notes are steady. -/
def Watches (p : Parser σ) (rule : FilterRule σ Unit) (rule' : FilterRule (Counted σ) Unit) :
    Prop :=
  ∀ before, Steady p.limit (p.depth :: before) →
    Watched p (rule.run p) (rule'.run (p.counted before))

namespace Watches

variable {p : Parser σ} {rule next : FilterRule σ Unit} {rule' next' : FilterRule (Counted σ) Unit}

/-- A sequence is watched by a sequence. The second part may start wherever the first one ends. -/
theorem bind (h : Watches p rule rule')
    (hn : ∀ q, rule.run p = .ok () q → p.SameFrame q → Watches q next next') :
    Watches p (rule >>= fun _ => next) (rule' >>= fun _ => next') := by
  intro before steady
  have first := h before steady
  rw [Rule.run_bind, Rule.run_bind]
  generalize run : rule.run p = result at first
  generalize rule'.run (p.counted before) = result' at first
  cases first with
  | error e frame steady => exact .error e frame steady
  | @ok q before frame steady => exact (hn q run frame before steady).of_frame frame

/-- A loop is watched by a loop, if both go on at the same tokens. -/
theorem repeatWhile {again : Parser σ → Bool} {again' : Parser (Counted σ) → Bool}
    {lt : ∀ s s', again s → rule.run s = .ok () s' → s'.remaining < s.remaining}
    {lt' : ∀ s s', again' s → rule'.run s = .ok () s' → s'.remaining < s.remaining}
    (ha : ∀ (p : Parser σ) before, again' (p.counted before) = again p)
    (hround : ∀ q, p.SameFrame q → Watches q rule rule') :
    Watches p (Rule.repeatWhile again rule lt) (Rule.repeatWhile again' rule' lt') := by
  -- each round leaves fewer tokens
  induction hk : p.remaining using Nat.strongRecOn generalizing p with
  | ind k ih =>
    intro before steady
    rw [Rule.run_repeatWhile, Rule.run_repeatWhile, ha]
    refine .ite (fun more => ?_) fun _ => .ok (.refl p) steady
    refine bind (hround p (.refl p)) ?_ before steady
    intro q run frame
    have less : q.remaining < k := hk ▸ lt _ _ more run
    exact ih _ less (fun q' frame' => hround q' (frame.trans frame')) rfl

end Watches

namespace FilterRule

open TokenRule (Tracked tracked_skip tracked_terminal tracked_item)

variable {p p₀ : Parser σ}

/-- Rules on tokens leave the notes alone. -/
theorem watches_onTokens {rule : TokenRule σ Unit} {rule' : TokenRule (Counted σ) Unit}
    (h : Tracked p.limit p.limit True p.cursor rule rule') :
    Watches p (onTokens rule) (onTokens rule') := by
  intro before steady
  have tracks : Tracks (.parser p.depth p.limit) (.parser p.depth p.limit) True False p.cursor
      ((onTokens rule).run p) fun d => (onTokens rule').run ⟨d, p.depth, p.limit⟩ :=
    tracked_onTokens h
  have beside :
      Counted.Beside (p.depth :: before) p.cursor (p.cursor.counted (p.depth :: before)) :=
    ⟨rfl, rfl⟩
  have results := (Counted.inStep (p.depth :: before)).results rfl tracks beside
  show Watched p _ ((onTokens rule').run ⟨p.cursor.counted (p.depth :: before), p.depth, p.limit⟩)
  generalize (onTokens rule).run p = result at results
  generalize (onTokens rule').run ⟨p.cursor.counted (p.depth :: before), p.depth, p.limit⟩ = result'
    at results
  cases results with
  | @ok m n beside =>
    rw [Counted.Beside.eq beside]
    exact .ok (q := ⟨m, p.depth, p.limit⟩) ⟨rfl, rfl⟩ steady
  | @error m n e e' beside he =>
    rw [Counted.Beside.eq beside, he.eq]
    exact .error (q := ⟨m, p.depth, p.limit⟩) e ⟨rfl, rfl⟩ steady

section Inside

variable {filter : FilterRule σ Unit} {filter' : FilterRule (Counted σ) Unit}
  {h : filter.Consumes} {h' : filter'.Consumes}
  (hf : ∀ q, p₀.SameFrame q → Watches q filter filter')
include hf

theorem watches_filterlist (frame : p₀.SameFrame p) :
    Watches p (filterlist filter h) (filterlist filter' h') := by
  apply Watches.bind (hf p frame)
  intro q _ frame'
  apply Watches.repeatWhile (fun _ _ => rfl)
  intro q' frame''
  exact hf q' ((frame.trans frame').trans frame'')

theorem watches_filtercomp (frame : p₀.SameFrame p) :
    Watches p (filtercomp filter h) (filtercomp filter' h') := by
  have operator (hc : p.cursor.kind ≠ .eof) :
      Watches p (onTokens TokenRule.skip) (onTokens TokenRule.skip) :=
    watches_onTokens (tracked_skip hc)
  intro before steady
  rw [run_filtercomp, run_filtercomp]
  refine .ite (fun hc => ?_) fun _ => .ite (fun hc => ?_) fun _ => ?_
  · refine Watches.bind (operator ?_) ?_ before steady
    · rcases hc with h | h <;> rw [h] <;> decide
    · exact fun q _ frame' => watches_filterlist hf (frame.trans frame')
  · refine Watches.bind (operator ?_) ?_ before steady
    · rw [hc]
      decide
    · exact fun q _ frame' => hf q (frame.trans frame')
  · exact watches_onTokens (tracked_item p.cursor) before steady

theorem watches_parenthesized (frame : p₀.SameFrame p) :
    Watches p (parenthesized filter h) (parenthesized filter' h') := by
  have parenthesis {kind : Terminal} (hk : kind ≠ .eof) (q : Parser σ) :
      Watches q (onTokens (TokenRule.terminal kind)) (onTokens (TokenRule.terminal kind)) :=
    watches_onTokens (tracked_terminal hk q.cursor)
  apply Watches.bind (parenthesis (by decide) p)
  intro q _ frame'
  apply Watches.bind (watches_filtercomp hf (frame.trans frame'))
  intro q' _ _
  exact parenthesis (by decide) q'

end Inside

/-- A note where a filter is opened, and one where it is closed. -/
theorem run_thenNote_nested (rule : FilterRule (Counted σ) Unit) (p : Parser σ)
    (before : List Nat) :
    (thenNote (nested fun _ => note >>= fun _ => rule)).run (p.counted before) =
      match rule.run (Parser.counted { p with depth := p.depth + 1 } (p.depth :: before)) with
      | .ok _ q => .ok () (Parser.noted { q with depth := q.depth - 1 })
      | .error e q => .error e (Parser.noted { q with depth := q.depth - 1 }) := by
  have opened : (note >>= fun _ => rule).run
      ⟨(p.counted before).cursor, (p.counted before).depth + 1, (p.counted before).limit⟩ =
      rule.run (Parser.counted { p with depth := p.depth + 1 } (p.depth :: before)) := rfl
  simp only [thenNote, nested]
  rw [opened]
  cases rule.run (Parser.counted { p with depth := p.depth + 1 } (p.depth :: before)) <;> rfl

/-- A filter is opened where the count is below the limit, and is closed however it ends. -/
theorem watches_nested {rule : FilterRule σ Unit} {rule' : FilterRule (Counted σ) Unit}
    (inner : Watches { p with depth := p.depth + 1 } rule rule') (room : p.depth < p.limit) :
    Watches p (nested fun _ => rule) (thenNote (nested fun _ => note >>= fun _ => rule')) := by
  intro before steady
  have inside := inner (p.depth :: before) (steady.opened room)
  rw [run_thenNote_nested]
  simp only [nested]
  generalize rule.run { p with depth := p.depth + 1 } = result at inside
  generalize rule'.run (Parser.counted { p with depth := p.depth + 1 } (p.depth :: before)) =
    result' at inside
  have closing {q : Parser σ} {noted : List Nat} (depth : q.depth = p.depth + 1)
      (steady : Steady q.limit (q.depth :: noted)) :
      q.depth - 1 = p.depth ∧ Steady q.limit ((q.depth - 1) :: q.depth :: noted) := by
    rw [depth] at steady ⊢
    exact ⟨rfl, steady.closed⟩
  cases inside with
  | ok frame steady =>
    obtain ⟨depth, steady⟩ := closing frame.depth steady
    exact .ok ⟨depth, frame.limit⟩ steady
  | error e frame steady =>
    obtain ⟨depth, steady⟩ := closing frame.depth steady
    exact .error e ⟨depth, frame.limit⟩ steady

/-- The count is steady below the limit, and is given back as it was. -/
theorem watches_within (levels : Nat) (p : Parser σ) (room : p.depth + levels ≤ p.limit) :
    Watches p (within levels).val (countedWithin levels).val := by
  induction levels generalizing p with
  | zero =>
    intro before steady
    exact .error _ (.refl p) steady
  | succ levels ih =>
    refine watches_nested (watches_parenthesized ?_ (.refl _)) (by omega)
    intro q frame
    apply ih
    rw [frame.depth, frame.limit]
    show p.depth + 1 + levels ≤ p.limit
    omega

end FilterRule

/-! ## Calls with notes -/

/-- The answer to a call for a filter with the parser as the call leaves it, and the values that the
count takes on the way, the last one first. -/
def Parser.watchFilter (p : Parser σ) : (Except ParseError Unit × Parser σ) × List Nat :=
  match (FilterRule.countedWithin (p.limit - p.depth)).val.run (p.counted []) with
  | .ok _ q => ((.ok (), q.uncounted), q.cursor.source.counts)
  | .error e q => ((.error e, q.uncounted), q.cursor.source.counts)

/-- A call for a filter is the same where its count is watched; the count starts with no filter
open, goes up by one below the limit only and down by one above zero only, and never passes the
limit. -/
structure Parser.KeepsCount (p : Parser σ) : Prop where
  same : p.watchFilter.1 = p.call .filter
  steady : Steady p.limit p.watchFilter.2
  le : ∀ n ∈ p.watchFilter.2, n ≤ p.limit

theorem Parser.keepsCount {p : Parser σ} (h : p.depth = 0) : p.KeepsCount := by
  have room : p.depth + (p.limit - p.depth) ≤ p.limit := by omega
  have watched : Watched p (Parser.filter p)
      ((FilterRule.countedWithin (p.limit - p.depth)).val.run (p.counted [])) :=
    FilterRule.watches_within (p.limit - p.depth) p room [] (h ▸ .start)
  have spec : p.watchFilter.1 = p.call .filter ∧ Steady p.limit p.watchFilter.2 := by
    unfold watchFilter
    generalize (FilterRule.countedWithin (p.limit - p.depth)).val.run (p.counted []) = result
      at watched
    generalize run : Parser.filter p = result' at watched
    cases watched with
    | ok frame steady =>
      rw [call_filter_of_ok run]
      exact ⟨rfl, frame.limit ▸ steady⟩
    | error e frame steady =>
      rw [call_filter_of_error run]
      exact ⟨rfl, frame.limit ▸ steady⟩
  exact ⟨spec.1, spec.2, spec.2.le⟩

/-- **A parser rests after every call.** Whatever a parser was called for, and whatever the answers,
no filter is open and its next token is the last one that its source has given. A filter that fails
leaves the token at fault there, or the failure as the last answer of the source, and no filter
opens more than the limit allows while it is read. That the answers of the source are recorded
changes nothing. -/
theorem parser_rests_after_calls {s : σ} {p : Parser (Recorded σ)}
    (hp : Parser.ofSource? (Recorded.ofSource s) = .ok p) (ks : List Parser.Call) :
    (p.after ks).AtRest ∧
    (∀ e, ((p.after ks).call .filter).1 = .error e → e.LeftAt ((p.after ks).call .filter).2) ∧
    (p.after ks).KeepsCount ∧
    Parser.ofSource? s = .ok p.unrecorded ∧
    ∀ k, (p.unrecorded.after ks).call k =
      (((p.after ks).call k).1, ((p.after ks).call k).2.unrecorded) := by
  have rests : (p.after ks).AtRest := (Parser.AtRest.of_ofSource? hp).after ks
  refine ⟨rests, rests.filter.2, Parser.keepsCount rests.closed, ?_, ?_⟩
  · exact Parser.ofSource?_unrecorded hp
  · intro k
    rw [Parser.after_unrecorded]
    exact (p.after ks).call_unrecorded k

/-- A parser that may open one filter is refused a second one, and then called again. -/
theorem parser_rests_after_calls_too_deep :
    ∃ p, Parser.ofSource? (Recorded.ofSource
        (Replay.ofList [(.lparen, "("), (.ampersand, "&"), (.lparen, "(")] none)) = .ok p ∧
      (ParseError.nestingTooDeep 1 2 ⟨2, 3⟩).LeftAt ((p.after [.withLimit 1]).call .filter).2 ∧
      (p.after [.withLimit 1, .filter, .filter]).AtRest ∧
      (p.after [.withLimit 1, .filter]).KeepsCount := by
  have start : Parser.ofSource? (Recorded.ofSource
      (Replay.ofList [(.lparen, "("), (.ampersand, "&"), (.lparen, "(")] none)) = .ok _ := rfl
  refine ⟨_, start, ?_, ?_, ?_⟩
  · exact (parser_rests_after_calls start [.withLimit 1]).2.1 _ (by decide +kernel)
  · exact (parser_rests_after_calls start [.withLimit 1, .filter, .filter]).1
  · exact (parser_rests_after_calls start [.withLimit 1, .filter]).2.2.1

end LdapFilter
