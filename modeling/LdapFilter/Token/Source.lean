import LdapFilter.Error.Parse

/-!
# Sources of tokens

A token source gives tokens one at a time, and may fail to. What it gives is finite: a bound on
what it has left goes down with each token but those at the end of the input
(`TokenSource.remaining_next`). Reading a source to its end (`TokenSource.readAll`) therefore
ends, and so does the parser.
-/

namespace LdapFilter

/-- What gives tokens one at a time. -/
class TokenSource (σ : Type) where
  /-- The next token, or why there is none. -/
  next : EStateM LexError σ Token
  /-- How many units of the input have been read. -/
  position : σ → Nat
  /-- A bound on how many tokens are left before the end. -/
  remaining : σ → Nat
  /-- What is left and the token just given are at most what was left before. -/
  remaining_next : ∀ {s s' : σ} {t : Token}, next s = .ok t s' →
    remaining s' + t.weight ≤ remaining s

namespace TokenSource

variable {σ : Type} [TokenSource σ]

/-- A token before the end leaves less to give. -/
theorem remaining_lt {s s' : σ} {t : Token} (h : next s = .ok t s') (ht : t.kind ≠ .eof) :
    remaining s' < remaining s := by
  have := remaining_next h
  have := Token.weight_pos ht
  omega

/-- Every token up to the end of the input or to the first failure, and the failure. -/
def readAll (s : σ) : List Token × Option LexError :=
  match h : next s with
  | .ok t s' =>
    if he : t.kind = .eof then ([t], none)
    else
      have := remaining_lt h he
      (t :: (readAll s').1, (readAll s').2)
  | .error e _ => ([], some e)
termination_by remaining s

/-- Every token of the input, the one at its end included. -/
def tokens (s : σ) : Except LexError (List Token) :=
  match readAll s with
  | (ts, none) => .ok ts
  | (_, some e) => .error e

end TokenSource

/-- A source read token by token; reading stops for good after the end of the input, and after
a failure. -/
structure TokenStream (σ : Type) where
  source : σ
  finished : Bool

namespace TokenStream

variable {σ : Type} [TokenSource σ]

/-- The stream of a source. -/
def ofSource (s : σ) : TokenStream σ :=
  ⟨s, false⟩

/-- The next token or failure, if the stream has not stopped. -/
def next? (stream : TokenStream σ) : Option (Except LexError Token) × TokenStream σ :=
  if stream.finished then (none, stream)
  else
    match TokenSource.next stream.source with
    | .ok t s => (some (.ok t), ⟨s, t.isEof⟩)
    | .error e s => (some (.error e), ⟨s, true⟩)

end TokenStream

end LdapFilter
