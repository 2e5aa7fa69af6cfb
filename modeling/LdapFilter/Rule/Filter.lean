import LdapFilter.Filter.Parser
import LdapFilter.Rule.Item

/-!
# Rules of a filter

Filters nest, so the rules of a filter take the rule of the filters inside it as an argument, and
`FilterRule.within` ties the knot for a number of levels. A rule that fails stops the parse at
once and leaves the parser usable: the count of open filters is back where it was, and the
lookahead is the token at fault.
-/

namespace LdapFilter

/-- A rule that may open filters. -/
abbrev FilterRule (σ : Type) [TokenSource σ] : Type → Type :=
  Rule (Parser σ) Parser.remaining

namespace FilterRule

variable {σ : Type} [TokenSource σ] {α : Type}

/-- The rule that opens no filter, and reads what `rule` reads. -/
def onTokens (rule : TokenRule σ α) : FilterRule σ α where
  run p :=
    match rule.run p.cursor with
    | .ok a c => .ok a { p with cursor := c }
    | .error e c => .error e { p with cursor := c }
  size_le h := by
    split at h
    · next hs =>
      cases h
      exact rule.size_le hs
    · cases h

theorem consumes_onTokens {rule : TokenRule σ α} (h : rule.Consumes) :
    (onTokens rule).Consumes := by
  intro p a p' hp
  simp only [onTokens] at hp
  split at hp
  · next hs =>
    cases hp
    exact h _ _ _ hs
  · cases hp

/-- Fails because the limit on nesting is reached. -/
def tooDeep : FilterRule σ Unit where
  run p := .error (.nestingTooDeep p.limit p.cursor.current.position p.cursor.current.span) p
  size_le h := by cases h

theorem consumes_tooDeep : (tooDeep : FilterRule σ Unit).Consumes := by
  intro p a p' h
  cases h

/-- Reads what `rule ()` reads, with one more filter open, and closes it however that ends. The
rule is made when it is reached. -/
def nested (rule : Unit → FilterRule σ Unit) : FilterRule σ Unit where
  run p :=
    match (rule ()).run { p with depth := p.depth + 1 } with
    | .ok _ q => .ok () { q with depth := q.depth - 1 }
    | .error e q => .error e { q with depth := q.depth - 1 }
  size_le h := by
    split at h
    · next hs =>
      cases h
      have := (rule ()).size_le hs
      exact this
    · cases h

theorem consumes_nested {rule : Unit → FilterRule σ Unit} (h : (rule ()).Consumes) :
    (nested rule).Consumes := by
  intro p a p' hp
  simp only [nested] at hp
  split at hp
  · next hs =>
    cases hp
    have := h _ _ _ hs
    exact this
  · cases hp

/-- `filterlist = 1*filter`. -/
def filterlist (filter : FilterRule σ Unit) (h : filter.Consumes) : FilterRule σ Unit := do
  filter
  Rule.repeatWhile (fun p => p.cursor.kind = .lparen) filter fun p p' _ => h p () p'

/-- `filtercomp = and / or / not / item`. -/
def filtercomp (filter : FilterRule σ Unit) (h : filter.Consumes) : FilterRule σ Unit := do
  match (← onTokens TokenRule.peek).kind with
  | .ampersand =>
    onTokens TokenRule.skip
    filterlist filter h
  | .vertbar =>
    onTokens TokenRule.skip
    filterlist filter h
  | .exclamation =>
    onTokens TokenRule.skip
    filter
  | _ => onTokens TokenRule.item

/-- `LPAREN filtercomp RPAREN`. -/
def parenthesized (filter : FilterRule σ Unit) (h : filter.Consumes) : FilterRule σ Unit := do
  onTokens (TokenRule.terminal .lparen)
  filtercomp filter h
  onTokens (TokenRule.terminal .rparen)

theorem consumes_parenthesized {filter : FilterRule σ Unit} (h : filter.Consumes) :
    (parenthesized filter h).Consumes :=
  (consumes_onTokens (TokenRule.consumes_terminal (by decide))).bind _

/-- A filter of at most `levels` filters inside one another; it takes a token if it succeeds. -/
def within : (levels : Nat) → { rule : FilterRule σ Unit // rule.Consumes }
  | 0 => ⟨tooDeep, consumes_tooDeep⟩
  | levels + 1 =>
    ⟨nested fun _ => parenthesized (within levels).val (within levels).property,
      consumes_nested (consumes_parenthesized (within levels).property)⟩

end FilterRule

end LdapFilter
