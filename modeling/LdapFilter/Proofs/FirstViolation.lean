import LdapFilter.Proofs.Continuation

/-!
# The parse fails at the first violation

What a failed parse has read up to the offending token can still become a filter, also one that
goes on with what the error says was expected; but no filter, of however many levels, goes on with
the offending token. The first half is that rules stay inside the grammar. For the second, a
filter that goes on with the token would be accepted, and the run that accepts it would have met
the same tokens up to there, and so the same verdict.
-/

namespace LdapFilter

/-- The text `u` is the beginning of a filter of at most `levels` filters inside one another. -/
def Grammar.Begun (levels : Nat) (u : List Char) : Prop :=
  ∃ v, Filter levels (u ++ v)

/-- The token `found` ends the longest beginning of filters in a text: the text is `u`, and then
`rest` from the token on. -/
structure FirstViolation (limit : Nat) (u rest : List Char) (expected : Construct)
    (found : Token) : Prop where
  /-- The token lies after the octets of `u`. -/
  start : found.span.start = (Utf8.encodeAll u).length
  /-- What was read begins a filter. -/
  begun : Grammar.Begun limit u
  /-- A filter may go on with what was expected. -/
  expected_begun : ∃ ch, expected.Begins ch ∧ Grammar.Begun limit (u ++ [ch])
  /-- The token is the end of the input only where no filter ends. -/
  at_end : rest = [] → found.kind = .eof ∧ ∀ n, ¬Grammar.Filter n u
  /-- Any other token is one that no filter goes on with. -/
  at_character : ∀ ch tail, rest = ch :: tail →
    found.Spells ch ∧ ∀ n, ¬Grammar.Begun n (u ++ [ch])

open Grammar
open CharCursor (behind)

variable {c m : Lookahead CharCursor} {u : List Char} {limit : Nat}

theorem firstViolation_of_lacks {construct : Construct} {rest : List Char}
    (hr : Reads c u m) (hm : m.Heads (behind u rest))
    (h : (Verdict.lacks construct).Holds (.parser 0 limit) m
      ((FilterRule.within limit).val.run ⟨c, 0, limit⟩))
    (hu : (Verdict.lacks construct).Viable (Filter limit) (fun s => ∃ n, Filter n s) u m) :
    FirstViolation limit u rest construct m.current where
  start := (CharCursor.place_of_heads hm).2
  begun := by
    obtain ⟨ch, v, -, hf⟩ := hu
    exact ⟨ch :: v, hf⟩
  expected_begun := by
    obtain ⟨ch, v, hb, hf⟩ := hu
    exact ⟨ch, hb, v, by simpa using hf⟩
  at_end := by
    rintro rfl
    obtain ⟨-, ht⟩ | ⟨_, _, _, h, -⟩ := CharCursor.heads_behind hm
    · constructor
      · exact congrArg Token.kind ht
      · intro n hf
        rw [← u.append_nil] at hf
        apply not_filter_of_lacks hr h _ hf
        intro k hk
        rw [hk.unique hm]
        exact .refl _
    · cases h
  at_character := by
    rintro ch tail rfl
    have spells : m.current.Spells ch := CharCursor.spells_of_heads hm
    constructor
    · exact spells
    · rintro n ⟨v, hf⟩
      rw [List.append_assoc] at hf
      apply not_filter_of_lacks hr h _ hf
      intro k hk
      exact spells.alike (CharCursor.spells_of_heads hk)

theorem offset_of_error {before rest : List Char} {e : LexError} {k : CharCursor}
    (h : TokenSource.next (behind before rest) = .error e k) :
    e.offset = (Utf8.encodeAll before).length := by
  obtain ⟨tail, rfl⟩ := CharCursor.nul_of_error h
  obtain ⟨rfl, -⟩ := EStateM.Result.error.inj (h.symm.trans (CharCursor.next_behind_nul ..))
  rfl

/-- **The first violation.** A text that is no filter is read up to its first token that no filter
has there. -/
theorem parse_error_first_violation (text : String) (limit : Nat) :
    (∀ expected found, parse text ⟨.codePoint, limit⟩ = .error (.unexpected expected found) →
      ∃ u rest, text.toList = u ++ rest ∧ FirstViolation limit u rest expected found) ∧
    ∀ e, parse text ⟨.codePoint, limit⟩ = .error (.lexical e) →
      ∃ u rest, text.toList = u ++ rest ∧ e.offset = (Utf8.encodeAll u).length ∧
        ∃ n, Begun n u := by
  rw [parse_codePoint]
  obtain ⟨c, hc⟩ | ⟨e, k, he⟩ := Lookahead.heads_or_error (behind [] text.toList)
  swap
  · rw [recognize_of_error he]
    constructor
    · intro expected found h
      cases h
    · intro e' h
      cases h
      exact ⟨[], text.toList, rfl, offset_of_error he, 1, _, FilterRule.filter_one⟩
  obtain ⟨u, rest, m, v, htext, hr, hm, hv, hu⟩ := exists_verdict limit hc
  have ha := hv.answers hc
  generalize outcome (recognize limit (behind [] text.toList)) = answer at ha
  constructor
  · rintro expected found rfl
    obtain ⟨rfl, rfl⟩ := ha.of_unexpected
    exact ⟨u, rest, htext, firstViolation_of_lacks hr hm hv hu⟩
  · rintro e rfl
    obtain ⟨rfl, k, hk⟩ := ha.of_lexical
    obtain ⟨ch, v, hch, n, hf⟩ := hu
    -- the token that cannot be taken belongs to what can still become a filter
    obtain ⟨-, ht⟩ | ⟨ch', tail, kind, rfl, hkind, ht, hs⟩ := CharCursor.heads_behind hm
    · exact absurd (congrArg Token.kind ht) hch.kind_ne_eof
    · cases hch.unique (ht ▸ CharCursor.spells_tokenBehind hkind)
      refine ⟨u ++ [ch], tail, by simpa using htext, ?_, n, v, by simpa using hf⟩
      exact offset_of_error (hs ▸ hk)

/-- An escape that ends after one digit is noticed at the character after it. -/
theorem parse_error_first_violation_escape :
    ∃ u rest, "(a=\\2)".toList = u ++ rest ∧
      FirstViolation 1 u rest .hexDigit ⟨.rparen, ")", 5, ⟨5, 6⟩⟩ :=
  (parse_error_first_violation "(a=\\2)" 1).1 _ _ (by decide +kernel)

end LdapFilter
