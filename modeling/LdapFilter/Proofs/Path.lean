import Mathlib.Data.List.Forall2
import LdapFilter.Token.Lookahead

/-!
# Paths of a lookahead

A lookahead moves by taking tokens, and never past the end of the input. `Path R c xs m` says
that the tokens taken from `c` on, up to but not with the one at `m`, are related by `R` to `xs`
one by one. With equality for `R` the labels are the tokens themselves; with other relations the
same path can be labelled by characters, or by the tokens of another source. Each step leaves
less to come, so a path is determined by its ends (`Path.unique`).
-/

namespace LdapFilter

variable {σ : Type} [TokenSource σ]

/-- That `c` is the lookahead at the first token of `s`. -/
def Lookahead.Heads (c : Lookahead σ) (s : σ) : Prop :=
  TokenSource.next s = .ok c.current c.source

/-- Taking the token of `c`, which is not the end of the input, leads to `m`. -/
def Lookahead.Takes (c m : Lookahead σ) : Prop :=
  c.kind ≠ .eof ∧ m.Heads c.source

/-- The token of `c` cannot be taken, because none can be read after it. -/
def Lookahead.Stuck (c : Lookahead σ) : Prop :=
  ∃ e s, TokenSource.next c.source = .error e s

namespace Lookahead

/-- A source has a first token, or none can be read. -/
theorem heads_or_error (s : σ) :
    (∃ c : Lookahead σ, c.Heads s) ∨ ∃ e s', TokenSource.next s = .error e s' := by
  cases hn : TokenSource.next s with
  | ok t s' => exact .inl ⟨⟨s', t⟩, hn⟩
  | error e s' => exact .inr ⟨e, s', rfl⟩

/-- A token before the end of the input is taken, or there is none to read after it. -/
theorem takes_or_error {c : Lookahead σ} (h : c.kind ≠ .eof) :
    (∃ m, c.Takes m) ∨ ∃ e s, TokenSource.next c.source = .error e s := by
  obtain ⟨m, hm⟩ | he := heads_or_error c.source
  · exact .inl ⟨m, h, hm⟩
  · exact .inr he

theorem Heads.next_eq {c : Lookahead σ} {s : σ} (h : c.Heads s) :
    TokenSource.next s = .ok c.current c.source :=
  h

theorem Takes.next_eq {c m : Lookahead σ} (h : c.Takes m) :
    TokenSource.next c.source = .ok m.current m.source :=
  h.2

theorem Takes.consume_eq {c m : Lookahead σ} (h : c.Takes m) : consume c = .ok c.current m := by
  simp only [consume, h.next_eq]

theorem Takes.remaining_lt {c m : Lookahead σ} (h : c.Takes m) : m.remaining < c.remaining := by
  have := remaining_consume h.consume_eq
  have := Token.weight_pos h.1
  omega

theorem Heads.unique {c d : Lookahead σ} {s : σ} (h : c.Heads s) (h' : d.Heads s) : c = d := by
  have he := h.symm.trans h'
  cases c
  cases d
  simp only [EStateM.Result.ok.injEq] at he
  rw [he.1, he.2]

theorem Takes.unique {c m m' : Lookahead σ} (h : c.Takes m) (h' : c.Takes m') : m = m' :=
  h.2.unique h'.2

end Lookahead

/-- The tokens taken on the way from `c` to `m` are related to `xs`. -/
inductive Path {ι : Type} (R : Token → ι → Prop) :
    Lookahead σ → List ι → Lookahead σ → Prop where
  | nil (c : Lookahead σ) : Path R c [] c
  | cons {c c' m : Lookahead σ} {x : ι} {xs : List ι} (label : R c.current x)
      (taken : c.Takes c') (rest : Path R c' xs m) : Path R c (x :: xs) m

namespace Path

variable {ι κ : Type} {R : Token → ι → Prop} {Q : Token → κ → Prop}

theorem single {c m : Lookahead σ} {x : ι} (label : R c.current x) (taken : c.Takes m) :
    Path R c [x] m :=
  .cons label taken (.nil m)

theorem append {c m n : Lookahead σ} {xs ys : List ι} (h : Path R c xs m) (h' : Path R m ys n) :
    Path R c (xs ++ ys) n := by
  induction h with
  | nil => exact h'
  | cons label taken _ ih => exact .cons label taken (ih h')

theorem split {c n : Lookahead σ} {xs ys : List ι} (h : Path R c (xs ++ ys) n) :
    ∃ m, Path R c xs m ∧ Path R m ys n := by
  induction xs generalizing c with
  | nil => exact ⟨c, .nil c, h⟩
  | cons x xs ih =>
    cases h with
    | cons label taken rest =>
      obtain ⟨m, hm, hn⟩ := ih rest
      exact ⟨m, .cons label taken hm, hn⟩

theorem eq_of_nil {c m : Lookahead σ} (h : Path R c [] m) : c = m := by
  cases h
  rfl

/-- A path with labels `xs` has labels `ys` too, if these follow from the former. -/
theorem relabel {c m : Lookahead σ} {xs : List ι} {ys : List κ} {S : ι → κ → Prop}
    (h : Path R c xs m) (hl : List.Forall₂ S xs ys) (hq : ∀ t x y, R t x → S x y → Q t y) :
    Path Q c ys m := by
  induction h generalizing ys with
  | nil => cases hl; exact .nil _
  | cons label taken _ ih =>
    cases hl with
    | cons hx hxs => exact .cons (hq _ _ _ label hx) taken (ih hxs)

/-- Every path is one by its own tokens. -/
theorem exists_tokens {c m : Lookahead σ} {xs : List ι} (h : Path R c xs m) :
    ∃ ts, Path (· = ·) c ts m ∧ List.Forall₂ R ts xs := by
  induction h with
  | nil c => exact ⟨[], .nil c, .nil⟩
  | @cons c _ _ _ _ label taken _ ih =>
    obtain ⟨ts, hts, hxs⟩ := ih
    exact ⟨c.current :: ts, .cons rfl taken hts, .cons label hxs⟩

theorem remaining_le {c m : Lookahead σ} {xs : List ι} (h : Path R c xs m) :
    m.remaining + xs.length ≤ c.remaining := by
  induction h with
  | nil => exact Nat.le_refl _
  | cons _ taken _ ih =>
    have := taken.remaining_lt
    rw [List.length_cons]
    omega

/-- Two paths between the same lookaheads take the same tokens. -/
theorem unique {c m : Lookahead σ} {ts us : List Token} (h : Path (· = ·) c ts m)
    (h' : Path (· = ·) c us m) : ts = us := by
  induction h generalizing us with
  | nil c =>
    have := h'.remaining_le
    exact (List.length_eq_zero_iff.1 (by omega)).symm
  | cons label taken rest ih =>
    cases h' with
    | nil =>
      have := rest.remaining_le
      have := taken.remaining_lt
      omega
    | cons label' taken' rest' =>
      cases taken.unique taken'
      rw [← label, ← label', ih rest']

/-- What relates two labellings of a path, if each step relates its two labels. -/
theorem forall₂_labels {c m : Lookahead σ} {xs : List ι} {ys : List κ} {S : ι → κ → Prop}
    (h : Path R c xs m) (h' : Path Q c ys m) (hs : ∀ t x y, R t x → Q t y → S x y) :
    List.Forall₂ S xs ys := by
  obtain ⟨ts, hts, hx⟩ := h.exists_tokens
  obtain ⟨us, hus, hy⟩ := h'.exists_tokens
  cases hts.unique hus
  clear h h' hts hus
  induction hx generalizing ys with
  | nil => cases hy; exact .nil
  | cons hx _ ih =>
    cases hy with
    | cons hy hys => exact .cons (hs _ _ _ hx hy) (ih hys)

end Path

end LdapFilter
