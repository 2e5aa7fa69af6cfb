import LdapFilter.Token.Lookahead

/-!
# Parsers of filters

A parser reads filters from a source of tokens, one after another. It counts the filters that
are open around the next token, and it keeps how many may be open at once.
-/

namespace LdapFilter

/-- How many filters may nest where nothing else is said. -/
def defaultLimit : Nat :=
  256

/-- A parser of filters. -/
structure Parser (σ : Type) where
  /-- The tokens to come. -/
  cursor : Lookahead σ
  /-- How many filters are open. -/
  depth : Nat
  /-- How many filters may be open at once. -/
  limit : Nat

namespace Parser

variable {σ : Type} [TokenSource σ]

/-- The parser at the first token of a source. -/
def ofSource? (s : σ) : Except LexError (Parser σ) :=
  match Lookahead.ofSource? s with
  | .ok c => .ok ⟨c, 0, defaultLimit⟩
  | .error e => .error e

/-- The parser with another limit on nesting. -/
def withLimit (limit : Nat) (p : Parser σ) : Parser σ :=
  { p with limit }

/-- Whether no token but the end of the input is left. -/
def atEof (p : Parser σ) : Bool :=
  p.cursor.atEof

/-- How many units of the input have been read. -/
def position (p : Parser σ) : Nat :=
  p.cursor.position

/-- A bound on how many tokens are left before the end. -/
def remaining (p : Parser σ) : Nat :=
  p.cursor.remaining

/-- Fails if input is left. -/
def finish (p : Parser σ) : Except ParseError Unit :=
  if p.atEof then .ok () else .error (.trailing p.cursor.current)

end Parser

end LdapFilter
