import LdapFilter.Proofs.InStep
import LdapFilter.Token.Recorded

/-!
# Recorded runs

A recorded source answers as the source that it records does, so a rule reads it like that one
(`Recorded.inStep`). Its record shows how far the rule has read: along a path each token that is
taken adds the answer after it (`Path.latest_eq`), so the next token of a lookahead stays the last
one that was given (`Path.lastToken?_eq`), also where a token cannot be taken and the failure comes
after it.
-/

namespace LdapFilter

variable {σ ι : Type}

/-! ## Without the record -/

/-- The lookahead without the record of its source. -/
def Lookahead.unrecorded (c : Lookahead (Recorded σ)) : Lookahead σ :=
  ⟨c.source.source, c.current⟩

/-- The parser without the record of its source. -/
def Parser.unrecorded (p : Parser (Recorded σ)) : Parser σ :=
  ⟨p.cursor.unrecorded, p.depth, p.limit⟩

namespace Recorded

/-- That a lookahead stands at the same place without the record. -/
abbrev Beside (m : Lookahead (Recorded σ)) (n : Lookahead σ) : Prop :=
  m.Beside (· = ·) (fun r s => r.source = s) n

theorem beside_self (m : Lookahead (Recorded σ)) : Beside m m.unrecorded :=
  ⟨rfl, rfl⟩

theorem Beside.eq {m : Lookahead (Recorded σ)} {n : Lookahead σ} (h : Beside m n) :
    n = m.unrecorded := by
  obtain ⟨source, current⟩ := n
  obtain ⟨rfl, rfl⟩ := h
  rfl

end Recorded

/-! ## One call -/

variable [TokenSource σ]

namespace Recorded

variable {r k : Recorded σ} {s s' : σ} {t : Token} {e : LexError}

theorem next_of_ok (h : TokenSource.next s = .ok t s') (latest : List (Except LexError Token)) :
    TokenSource.next (⟨s, latest⟩ : Recorded σ) = .ok t ⟨s', .ok t :: latest⟩ := by
  show nextToken _ = _
  simp only [nextToken, h]

theorem next_of_error (h : TokenSource.next s = .error e s')
    (latest : List (Except LexError Token)) :
    TokenSource.next (⟨s, latest⟩ : Recorded σ) = .error e ⟨s', .error e :: latest⟩ := by
  show nextToken _ = _
  simp only [nextToken, h]

/-- A token of a recorded source is one of its source, and the last answer of the record. -/
theorem of_next_ok (h : TokenSource.next r = .ok t k) :
    TokenSource.next r.source = .ok t k.source ∧ k.latest = .ok t :: r.latest := by
  cases hn : TokenSource.next r.source with
  | ok u s =>
    cases h.symm.trans (next_of_ok hn r.latest)
    exact ⟨rfl, rfl⟩
  | error e s => cases h.symm.trans (next_of_error hn r.latest)

/-- A failure of a recorded source is one of its source, and the last answer of the record. -/
theorem of_next_error (h : TokenSource.next r = .error e k) :
    TokenSource.next r.source = .error e k.source ∧ k.latest = .error e :: r.latest := by
  cases hn : TokenSource.next r.source with
  | ok u s => cases h.symm.trans (next_of_ok hn r.latest)
  | error e s =>
    cases h.symm.trans (next_of_error hn r.latest)
    exact ⟨rfl, rfl⟩

/-- A recorded source is in step with its source. -/
theorem inStep :
    InStep (· = ·) (· = ·) fun (r : Recorded σ) (s : σ) => r.source = s where
  alike := by
    rintro t _ rfl
    exact .refl t
  of_ok := by
    rintro r _ t k rfl h
    exact ⟨t, k.source, (of_next_ok h).1, rfl, rfl⟩
  of_error := by
    rintro r _ e k rfl h
    exact ⟨e, k.source, (of_next_error h).1, rfl, rfl⟩

/-- The last token of the record. -/
def lastToken? (r : Recorded σ) : Option Token :=
  r.latest.findSome? Except.toOption

theorem lastToken?_of_ok (h : TokenSource.next r = .ok t k) : k.lastToken? = some t := by
  rw [lastToken?, (of_next_ok h).2]
  rfl

/-- A failure leaves the last token the last one. -/
theorem lastToken?_of_error (h : TokenSource.next r = .error e k) :
    k.lastToken? = r.lastToken? := by
  rw [lastToken?, (of_next_error h).2]
  rfl

end Recorded

/-! ## Along a path -/

variable {c m : Lookahead (Recorded σ)}

theorem Lookahead.Heads.unrecorded {r : Recorded σ} (h : c.Heads r) :
    c.unrecorded.Heads r.source :=
  (Recorded.of_next_ok h).1

/-- A path is one without the record too. -/
theorem Path.unrecorded {R : Token → ι → Prop} {xs : List ι} (h : Path R c xs m) :
    Path R c.unrecorded xs m.unrecorded := by
  induction h with
  | nil => exact .nil _
  | cons label taken _ ih => exact .cons label ⟨taken.1, taken.2.unrecorded⟩ ih

/-- Tokens that are taken come before the end. -/
theorem Path.kind_ne_eof {c m : Lookahead σ} {ts : List Token} (h : Path (· = ·) c ts m) :
    ∀ t ∈ ts, t.kind ≠ .eof := by
  induction h with
  | nil => exact fun t ht => nomatch ht
  | cons label taken _ ih =>
    rw [List.forall_mem_cons]
    exact ⟨label ▸ taken.1, ih⟩

/-- The answers on a path are the tokens after the first one. -/
theorem Path.latest_eq {ts : List Token} {before : List (Except LexError Token)}
    (h : Path (· = ·) c ts m) (hc : c.source.latest = .ok c.current :: before) :
    m.source.latest = .ok m.current :: (ts.reverse.map .ok ++ before) := by
  induction h generalizing before with
  | nil => exact hc
  | @cons c c' m t ts label taken _ ih =>
    have next : c'.source.latest = .ok c'.current :: .ok t :: before := by
      rw [(Recorded.of_next_ok taken.next_eq).2, hc, label]
    rw [ih next, List.reverse_cons, List.map_append, List.append_assoc]
    rfl

/-- At the first token of a source there is one answer. -/
theorem Lookahead.Heads.latest_eq {s : σ} (h : c.Heads (Recorded.ofSource s)) :
    c.source.latest = [.ok c.current] :=
  (Recorded.of_next_ok h).2

/-- From the first token on the answers are the tokens of the path and the one at its end. -/
theorem Path.answers_eq {ts : List Token} (h : Path (· = ·) c ts m)
    (hc : c.source.latest = [.ok c.current]) : m.source.answers = (ts ++ [m.current]).map .ok := by
  rw [Recorded.answers, h.latest_eq hc, List.append_nil, List.reverse_cons, List.map_reverse,
    List.reverse_reverse, List.map_append]
  rfl

/-- The next token stays the last one that was given. -/
theorem Path.lastToken?_eq {xs : List ι} {R : Token → ι → Prop} (h : Path R c xs m)
    (hc : c.source.lastToken? = some c.current) : m.source.lastToken? = some m.current := by
  induction h with
  | nil => exact hc
  | cons _ taken _ ih => exact ih (Recorded.lastToken?_of_ok taken.next_eq)

end LdapFilter
