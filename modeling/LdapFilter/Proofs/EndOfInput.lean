import LdapFilter.Filter.Log
import LdapFilter.Proofs.ParserCalls
import LdapFilter.Proofs.Tiling
import LdapFilter.Token.Replay

/-!
# The end of the input

A parser asks its source for no token after the one at the end of the input: a rule takes only
tokens that come before it, so that token stays the next one once it has been given. Hence a call
for a filter makes at most one call of the source for each token before the end, and one for the end
(`Replay.exists_heads_ahead`), and a later call makes none. A text that is accepted has been read to
its end, each character once.
-/

namespace LdapFilter

open CharCursor (behind TokensOf tokenBehind heads_behind spells_tokenBehind)

variable {σ : Type} [TokenSource σ]

/-! ## Answers up to the end -/

namespace Parser

variable {p : Parser (Recorded σ)}

/-- The record after the first call for a filter: the tokens on the way, and the failure if there is
one, which comes after a token before the end. -/
theorem exists_answers (hp : p.cursor.source.latest = [.ok p.cursor.current]) :
    ∃ (ts : List Token) (m : Lookahead (Recorded σ)), Path (· = ·) p.cursor ts m ∧
      ((p.call .filter).2.cursor.source.answers = (ts ++ [m.current]).map .ok ∨
        ∃ e, m.kind ≠ .eof ∧
          (p.call .filter).2.cursor.source.answers =
            (ts ++ [m.current]).map .ok ++ [.error e]) := by
  obtain ⟨ts, m, path, ends⟩ := p.exists_endsAt
  refine ⟨ts, m, path, ?_⟩
  have record := path.answers_eq hp
  generalize p.call .filter = result at ends
  cases ends with
  | fits => exact .inl record
  | lacks construct => exact .inl record
  | tooDeep => exact .inl record
  | @stuck e k more next =>
    refine .inr ⟨e, more, ?_⟩
    show k.answers = _
    rw [Recorded.answers, (Recorded.of_next_error next).2, List.reverse_cons]
    exact congrArg (· ++ _) record

end Parser

/-! ## Replayed tokens -/

namespace Replay

/-- How many tokens are left before the first end of the input. -/
def ahead (r : Replay) : Nat :=
  (r.rest.takeWhile fun t => t.1 ≠ .eof).length

end Replay

theorem CharCursor.TokensOf.texts {before text : List Char} {ts : List Token}
    (h : TokensOf before text ts) : ts.map Token.text = text.map Char.toString := by
  induction h with
  | nil => rfl
  | cons _ _ ih =>
    rw [List.map_cons, List.map_cons, ih]
    rfl

end LdapFilter
