import LdapFilter.Proofs.ByteTokens
import LdapFilter.Proofs.Placement
import LdapFilter.Proofs.Recognition

/-!
# Lexical errors and the other errors

The tokenizer reads all tokens of an input, the parser one after another and only as many as it
needs. A token that can be read leaves the error of the tokenizer to the tokens behind it, so a run
has that error still before it wherever it has got to (`Path.exists_tokens_error`), and all tokens
that it has seen lie before the place of that error (`TokenSource.offset_le_of_tokens`). So a parse
fails as the tokenizer does, or at a token before that place, and it meets no lexical error where
the tokenizer meets none.
-/

namespace LdapFilter

variable {σ : Type} [TokenSource σ] {c m : Lookahead σ} {s : σ}

/-! ## Errors of the tokenizer -/

namespace TokenSource

/-- A token that can be read leaves the error to the rest. -/
theorem tokens_eq_error_iff {s' : σ} {t : Token} {e : LexError} (h : next s = .ok t s')
    (ht : t.kind ≠ .eof) : tokens s = .error e ↔ tokens s' = .error e := by
  rw [tokens_of_ok h ht]
  cases tokens s' with
  | ok ts => exact ⟨nofun, nofun⟩
  | error e' => exact Iff.rfl

/-- A lexer fails behind the tokens that it has given. -/
theorem offset_le_of_tokens [PlacedSource σ] {e : LexError} (h : tokens s = .error e) :
    PlacedSource.offset s ≤ e.offset := by
  -- each token leaves fewer
  induction hn : remaining s using Nat.strongRecOn generalizing s with
  | ind n ih =>
    cases hs : next s with
    | error e' s' =>
      cases h.symm.trans (tokens_of_error hs)
      exact Nat.le_of_eq (PlacedSource.refuses hs).1.symm
    | ok t s' =>
      by_cases hk : t.kind = .eof
      · cases h.symm.trans (tokens_of_eof hs hk)
      · have fewer : remaining s' < n := hn ▸ remaining_lt hs hk
        have rest : tokens s' = .error e := (tokens_eq_error_iff hs hk).1 h
        exact Nat.le_trans (PlacedSource.covers hs).le (ih _ fewer rest rfl)

end TokenSource

open TokenSource (tokens tokens_of_eof tokens_of_error tokens_eq_error_iff offset_le_of_tokens)

/-- The error of the tokenizer is still to come wherever a path leads. -/
theorem Path.exists_tokens_error {ts : List Token} (h : Path (· = ·) c ts m) (hc : c.Heads s) :
    ∃ s', m.Heads s' ∧ ∀ e, tokens s = .error e ↔ tokens s' = .error e := by
  induction h generalizing s with
  | nil => exact ⟨s, hc, fun _ => Iff.rfl⟩
  | cons _ taken _ ih =>
    obtain ⟨s', hm, hs⟩ := ih taken.2
    exact ⟨s', hm, fun e => (tokens_eq_error_iff hc.next_eq taken.1).trans (hs e)⟩

/-! ## Answers -/

/-- How an answer fits the tokens of an input, or the error that there is in place of one. -/
structure MeetsTokens (tokens : Except LexError (List Token)) (answer : Except ParseError Unit) :
    Prop where
  of_ok : ∀ ts, tokens = .ok ts → ∀ e, answer ≠ .error (.lexical e)
  of_error : ∀ e, tokens = .error e → answer = .error (.lexical e) ∨
    ∃ e' span, answer = .error e' ∧ ¬e'.isLexical ∧ e'.span = .ok span ∧
      span.start < span.stop ∧ span.stop ≤ e.offset

theorem MeetsTokens.of_same (e : LexError) : MeetsTokens (.error e) (.error (.lexical e)) := by
  constructor
  · nofun
  · rintro e' ⟨⟩
    exact .inl rfl

/-- Unless a token cannot be taken, a token before the end is reported. -/
theorem Verdict.Answers.exists_reports {v : Verdict} {limit : Nat}
    {answer : Except ParseError Unit} (h : v.Answers limit m answer) (hv : v ≠ .stuck)
    (hk : m.kind ≠ .eof) : ∃ e, answer = .error e ∧ e.Reports m.current := by
  cases answer with
  | ok => exact absurd (of_decide_eq_true h.of_ok.2) hk
  | error e => exact ⟨e, rfl, h.reports hv⟩

theorem meetsTokens_recognize [PlacedSource σ] (limit : Nat) (s : σ) :
    MeetsTokens (tokens s) (outcome (recognize limit s)) := by
  obtain ⟨c, hc⟩ | ⟨e, k, he⟩ := Lookahead.heads_or_error s
  swap
  · rw [recognize_of_error he, tokens_of_error he]
    exact .of_same e
  obtain ⟨ts, m, v, hp, ha, hend⟩ := exists_answers limit hc
  obtain ⟨s', hm, herr⟩ := hp.exists_tokens_error hc
  by_cases hv : v = .stuck
  · -- the token that the run asks for is the one that the tokenizer fails at
    subst hv
    obtain ⟨e, k, he, answer⟩ := ha
    have rest : tokens s' = .error e :=
      (tokens_eq_error_iff hm.next_eq (hend rfl)).2 (tokens_of_error he)
    rw [answer, (herr e).2 rest]
    exact .of_same e
  constructor
  · intro ts _ e he
    rw [he] at ha
    exact hv ha.of_lexical.1
  · intro e he
    have hs' : tokens s' = .error e := (herr e).1 he
    have hk : m.kind ≠ .eof := by
      intro hk
      cases hs'.symm.trans (tokens_of_eof hm.next_eq hk)
    have rest : tokens m.source = .error e := (tokens_eq_error_iff hm.next_eq hk).1 hs'
    obtain ⟨e', answer, reports⟩ := ha.exists_reports hv hk
    refine .inr ⟨e', _, answer, reports.not_lexical, reports.span, ?_, ?_⟩
    · rw [hm.covers.span]
      exact hm.covers.more hk
    · rw [hm.covers.span]
      exact offset_le_of_tokens rest

/-- **Lexical errors and the others.** Where an input has all its tokens, a parse meets no lexical
error. Where the tokenizer fails, the parse fails, too: in the same way, or at a token before that
place. -/
theorem parse_meetsTokens (limit : Nat) :
    (∀ text, MeetsTokens (tokenize text) (parse text ⟨.codePoint, limit⟩)) ∧
    ∀ bytes, MeetsTokens (tokenizeBytes bytes) (parseBytes bytes limit) := by
  constructor
  · intro text
    exact meetsTokens_recognize limit (CharCursor.ofList text.toList)
  · intro bytes
    exact meetsTokens_recognize limit (ByteCursor.ofList bytes)

/-- A parenthesis that begins no filter is refused although NUL comes after it. -/
example : tokenize ")\x00" = .error (.invalidCharacter '\x00' 1 1) ∧
    parse ")\x00" ⟨.codePoint, 1⟩ = .error (.unexpected (.terminal .lparen)
      ⟨.rparen, ")", 0, ⟨0, 1⟩⟩) := by
  decide +kernel

end LdapFilter
