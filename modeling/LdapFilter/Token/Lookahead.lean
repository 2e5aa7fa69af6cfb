import LdapFilter.Token.Source

/-!
# One token of lookahead

A lookahead holds the token that comes next beside the source of the tokens after it. Consuming
that token reads one more. Where that fails the lookahead keeps its token, and its source is as
the failed read left it. Consuming never leaves more tokens to come, and it leaves fewer unless
the token was the end of the input (`Lookahead.remaining_consume`).
-/

namespace LdapFilter

/-- The next token and the source of those after it. -/
structure Lookahead (σ : Type) where
  source : σ
  current : Token

namespace Lookahead

variable {σ : Type} [TokenSource σ]

/-- The lookahead at the first token of a source. -/
def ofSource? (s : σ) : Except LexError (Lookahead σ) :=
  match TokenSource.next s with
  | .ok t s' => .ok ⟨s', t⟩
  | .error e _ => .error e

/-- The kind of the next token. -/
def kind (c : Lookahead σ) : Terminal :=
  c.current.kind

/-- Whether no token but the end of the input is left. -/
def atEof (c : Lookahead σ) : Bool :=
  c.current.isEof

/-- How many units of the input have been read. -/
def position (c : Lookahead σ) : Nat :=
  TokenSource.position c.source

/-- A bound on how many tokens are left before the end. -/
def remaining (c : Lookahead σ) : Nat :=
  TokenSource.remaining c.source + c.current.weight

/-- Takes the next token. -/
def consume : EStateM LexError (Lookahead σ) Token := fun c =>
  match TokenSource.next c.source with
  | .ok t s => .ok c.current ⟨s, t⟩
  | .error e s => .error e ⟨s, c.current⟩

/-- The error that `construct` is needed where the next token stands. -/
def expected (construct : Construct) (c : Lookahead σ) : ParseError :=
  .unexpected construct c.current

/-- Takes the next token if it is of kind `kind`. -/
def matchKind (kind : Terminal) : EStateM ParseError (Lookahead σ) Token := fun c =>
  if c.kind = kind then EStateM.adaptExcept .lexical consume c
  else .error (c.expected (.terminal kind)) c

/-- What is left and the token just taken are at most what was left before. -/
theorem remaining_consume {c c' : Lookahead σ} {t : Token} (h : consume c = .ok t c') :
    c'.remaining + c.current.weight ≤ c.remaining := by
  unfold consume at h
  split at h
  · next hs =>
    cases h
    exact Nat.add_le_add_right (TokenSource.remaining_next hs) _
  · cases h

theorem consume_of_adaptExcept {c c' : Lookahead σ} {t : Token} {f : LexError → ParseError}
    (h : EStateM.adaptExcept f consume c = .ok t c') : consume c = .ok t c' := by
  unfold EStateM.adaptExcept at h
  split at h
  · cases h
  · next hc =>
    cases h
    exact hc

theorem kind_of_matchKind {c c' : Lookahead σ} {t : Token} {kind : Terminal}
    (h : matchKind kind c = .ok t c') : c.kind = kind := by
  unfold matchKind at h
  split at h
  · assumption
  · cases h

theorem consume_of_matchKind {c c' : Lookahead σ} {t : Token} {kind : Terminal}
    (h : matchKind kind c = .ok t c') : consume c = .ok t c' := by
  unfold matchKind at h
  split at h
  · exact consume_of_adaptExcept h
  · cases h

end Lookahead

end LdapFilter
