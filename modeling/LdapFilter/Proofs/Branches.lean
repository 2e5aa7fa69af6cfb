import LdapFilter.Filter.Recognizer

/-!
# What a rule does at its first token

The rules that decide between alternatives do so by the token they stand before. For each of them
this module says, as one equation, which rule runs on in which case; proofs about rules use these
equations and leave the rules themselves closed.
-/

namespace LdapFilter

variable {σ : Type} [TokenSource σ]

namespace TokenRule

theorem run_peek_bind {α : Type} (next : Token → TokenRule σ α) (c : Lookahead σ) :
    (peek >>= next).run c = (next c.current).run c :=
  rfl

/-- A token of the wanted kind is taken, and any other is refused. -/
theorem run_terminal (kind : Terminal) (c : Lookahead σ) :
    (terminal kind).run c =
      if c.kind = kind then skip.run c else (refuse (.terminal kind)).run c := by
  have run_expect : (expect kind).run c = Lookahead.matchKind kind c := rfl
  simp only [terminal, Rule.run_bind, run_expect, Lookahead.matchKind]
  by_cases hk : c.kind = kind
  · rw [if_pos hk, if_pos hk]
    rfl
  · rw [if_neg hk, if_neg hk]
    rfl

theorem run_hex (c : Lookahead σ) :
    hex.run c =
      if c.current.isHexDigit then skip.run c else (refuse .hexDigit).run c := by
  rw [hex, run_peek_bind]
  split <;> rfl

theorem run_number (c : Lookahead σ) :
    number.run c =
      if c.kind = .digit then
        (take >>= fun t => if t.text = "0" then pure () else digits).run c
      else (refuse .number).run c := by
  rw [number, run_peek_bind, Lookahead.kind]
  split <;> rfl

theorem run_keychar (c : Lookahead σ) :
    keychar.run c = if c.kind.isKeychar then skip.run c else (refuse .keychar).run c := by
  rw [keychar, run_peek_bind, Lookahead.kind]
  split <;> rfl

theorem run_oid (c : Lookahead σ) :
    oid.run c =
      if c.kind = .alpha then descr.run c
      else if c.kind = .digit then numericoid.run c else (refuse .oid).run c := by
  rw [oid, run_peek_bind, Lookahead.kind]
  split
  · next h => rw [if_pos h]
  · next h => rw [if_neg (by rw [h]; decide), if_pos h]
  · next ha hd => rw [if_neg ha, if_neg hd]

theorem run_matchingRule (required : Bool) (c : Lookahead σ) :
    (matchingRule required).run c =
      if required || c.kind = .alpha || c.kind = .digit then
        (oid >>= fun _ => terminal .colon).run c
      else .ok () c := by
  show (if required || c.kind = .alpha || c.kind = .digit then (oid >>= fun _ => terminal .colon)
    else pure () : TokenRule σ Unit).run c = _
  split <;> rfl

/-- What is read after the letter `d`: the rest of the marker and what follows it, or the rest of
the name of a rule. -/
def afterD (required : Bool) : TokenRule σ Unit := do
  if (← peek).isLetter 'n' then
    skip
    if (← peek).kind = .colon then
      skip
      matchingRule required
    else matchingRuleTail
  else matchingRuleTail

/-- What is read after the letters `dn`. -/
def afterDn (required : Bool) : TokenRule σ Unit := do
  if (← peek).kind = .colon then
    skip
    matchingRule required
  else matchingRuleTail

theorem run_dnAndRule (required : Bool) (c : Lookahead σ) :
    (dnAndRule required).run c =
      if c.current.isLetter 'd' then (skip >>= fun _ => afterD required).run c
      else (matchingRule required).run c := by
  rw [dnAndRule, run_peek_bind]
  split <;> rfl

theorem run_afterD (required : Bool) (c : Lookahead σ) :
    (afterD required).run c =
      if c.current.isLetter 'n' then (skip >>= fun _ => afterDn required).run c
      else matchingRuleTail.run c := by
  rw [afterD, run_peek_bind]
  split <;> rfl

theorem run_afterDn (required : Bool) (c : Lookahead σ) :
    (afterDn required).run c =
      if c.kind = .colon then (skip >>= fun _ => matchingRule required).run c
      else matchingRuleTail.run c := by
  rw [afterDn, run_peek_bind, Lookahead.kind]
  split <;> rfl

theorem run_itemTail (c : Lookahead σ) :
    itemTail.run c =
      if c.kind = .colon then (extensible false).run c
      else if c.kind = .tilde ∨ c.kind = .rangle ∨ c.kind = .langle then ordering.run c
      else if c.kind = .equals then equality.run c
      else (refuse .filterType).run c := by
  rw [itemTail, run_peek_bind, Lookahead.kind]
  split <;> simp_all

theorem run_item (c : Lookahead σ) :
    item.run c =
      if c.kind = .alpha || c.kind = .digit then (attr >>= fun _ => itemTail).run c
      else (extensible true).run c := by
  show (if c.kind = .alpha || c.kind = .digit then (attr >>= fun _ => itemTail)
    else extensible true : TokenRule σ Unit).run c = _
  split <;> rfl

end TokenRule

namespace FilterRule

open TokenRule (skip item)

theorem run_peek_bind (next : Token → FilterRule σ Unit) (p : Parser σ) :
    (onTokens TokenRule.peek >>= next).run p = (next p.cursor.current).run p :=
  rfl

theorem run_filtercomp (filter : FilterRule σ Unit) (h : filter.Consumes) (p : Parser σ) :
    (filtercomp filter h).run p =
      if p.cursor.kind = .ampersand ∨ p.cursor.kind = .vertbar then
        (onTokens skip >>= fun _ => filterlist filter h).run p
      else if p.cursor.kind = .exclamation then (onTokens skip >>= fun _ => filter).run p
      else (onTokens item).run p := by
  rw [filtercomp, run_peek_bind, Lookahead.kind]
  split <;> simp_all

end FilterRule

end LdapFilter
