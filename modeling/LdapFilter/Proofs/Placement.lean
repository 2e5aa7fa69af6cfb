import LdapFilter.Proofs.ByteReading
import LdapFilter.Proofs.Path

/-!
# Where tokens lie

A lexer stands at an octet of its input. The token that it gives begins there and ends where the
lexer stands then, and it covers octets unless it is the end of the input; an error begins where
the lexer stands, too (`PlacedSource`). So the tokens on a path lie one behind the other
(`Path.start_le`).
-/

namespace LdapFilter

/-- The token lies from one octet to another; only the end of the input covers none. -/
structure Token.Covers (t : Token) (start stop : Nat) : Prop where
  span : t.span = ⟨start, stop⟩
  at_end : t.kind = .eof → stop = start
  more : t.kind ≠ .eof → start < stop

theorem Token.Covers.le {t : Token} {start stop : Nat} (h : t.Covers start stop) :
    start ≤ stop := by
  by_cases hk : t.kind = .eof
  · exact Nat.le_of_eq (h.at_end hk).symm
  · exact Nat.le_of_lt (h.more hk)

/-- A source that counts the octets behind it, and whose tokens and errors lie where it stands. -/
class PlacedSource (σ : Type) [TokenSource σ] where
  /-- How many octets lie behind the source. -/
  offset : σ → Nat
  covers : ∀ {s s' : σ} {t : Token}, TokenSource.next s = .ok t s' →
    t.Covers (offset s) (offset s')
  refuses : ∀ {s s' : σ} {e : LexError}, TokenSource.next s = .error e s' →
    e.offset = offset s ∧ ∃ stop, e.span = .ok ⟨offset s, stop⟩

instance : PlacedSource CharCursor where
  offset := CharCursor.offset
  covers {c c' t} h := by
    have h : CharCursor.nextToken c = .ok t c' := h
    obtain ⟨rest, position, offset⟩ := c
    cases rest with
    | nil =>
      cases h
      exact ⟨rfl, fun _ => rfl, fun hk => absurd rfl hk⟩
    | cons ch rest =>
      simp only [CharCursor.nextToken, CharCursor.current?, List.head?_cons] at h
      split at h
      · cases h
      · next kind hk =>
        cases h
        have more : offset < offset + ch.utf8Size := Nat.lt_add_of_pos_right ch.utf8Size_pos
        exact ⟨rfl, fun he => absurd (he ▸ hk) (Terminal.ofChar?_ne_eof ch), fun _ => more⟩
  refuses {c c' e} h := by
    have h : CharCursor.nextToken c = .error e c' := h
    unfold CharCursor.nextToken at h
    split at h
    · cases h
    · split at h
      · cases h
        exact ⟨rfl, _, Span.ofBounds?_eq_ok_iff.2 ⟨Nat.le_add_right _ _, rfl⟩⟩
      · cases h

instance : PlacedSource ByteCursor where
  offset := ByteCursor.position
  covers {c c' t} h := by
    obtain ⟨-, rfl, rfl⟩ | ⟨ch, kind, rest, -, hk, rfl, rfl⟩ := ByteCursor.cases_of_token h
    · exact ⟨rfl, fun _ => rfl, fun hk => absurd rfl hk⟩
    · have more : c.position < c.position + (Utf8.encode ch).length := by
        rw [Utf8.length_encode]
        exact Nat.lt_add_of_pos_right ch.utf8Size_pos
      exact ⟨rfl, fun he => absurd (he ▸ hk) (Terminal.ofChar?_ne_eof ch), fun _ => more⟩
  refuses {c c' e} h := by
    obtain ⟨rfl, -⟩ | ⟨lead, rfl, -⟩ | ⟨lead, found, left, length, -, rfl, -⟩ :=
      ByteCursor.cases_of_error h
    · exact ⟨rfl, _, Span.ofBounds?_eq_ok_iff.2 ⟨Nat.le_add_right _ _, rfl⟩⟩
    · exact ⟨rfl, _, Span.ofBounds?_eq_ok_iff.2 ⟨Nat.le_add_right _ _, rfl⟩⟩
    · have order : c.position ≤ c.position + 1 + found.length := by omega
      exact ⟨rfl, _, Span.ofBounds?_eq_ok_iff.2 ⟨order, rfl⟩⟩

/-! ## Tokens on a path -/

section Placed

variable {σ ι : Type} [TokenSource σ] {c m : Lookahead σ} {s : σ}

/-- What a path leads to is the first token of some source. -/
theorem Path.exists_heads {R : Token → ι → Prop} {xs : List ι} (h : Path R c xs m)
    (hc : c.Heads s) : ∃ s', m.Heads s' := by
  induction h generalizing s with
  | nil => exact ⟨s, hc⟩
  | cons _ taken _ ih => exact ih taken.2

open PlacedSource (offset)

variable [PlacedSource σ]

theorem Lookahead.Heads.covers (h : c.Heads s) : c.current.Covers (offset s) (offset c.source) :=
  PlacedSource.covers h.next_eq

/-- A token begins where the one before it ends. -/
theorem Lookahead.Takes.start_eq (h : c.Takes m) (hc : c.Heads s) :
    m.current.span.start = c.current.span.stop := by
  rw [hc.covers.span, (Heads.covers h.2).span]

/-- The tokens on a path lie one behind the other. -/
theorem Path.start_le {R : Token → ι → Prop} {xs : List ι} (h : Path R c xs m)
    (hc : c.Heads s) : c.current.span.start ≤ m.current.span.start := by
  induction h generalizing s with
  | nil => exact Nat.le_refl _
  | @cons c d _ _ _ _ taken _ ih =>
    calc c.current.span.start ≤ c.current.span.stop := by
          rw [hc.covers.span]
          exact hc.covers.le
      _ = d.current.span.start := (taken.start_eq hc).symm
      _ ≤ _ := ih taken.2

end Placed

end LdapFilter
