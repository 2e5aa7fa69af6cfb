import LdapFilter.Proofs.Recognition
import LdapFilter.Proofs.Tracking

/-!
# How a text goes on

What a run makes of a text does not depend on where the text comes from: wherever the same
characters are read and the next one is the same, the run reaches the same verdict
(`Verdict.Holds.of_reads`). A filter is read with the verdict that it fits. So a text after which
the run lacks a construct, or nests too deep, is not the beginning of a filter that goes on in the
same way (`not_filter_of_holds`), and no filter is the beginning of another
(`Grammar.Filter.eq_nil_of_append`).
-/

namespace LdapFilter

open Grammar
open CharCursor (behind)

variable {c d m n : Lookahead CharCursor} {u rest : List Char} {limit levels : Nat} {v w : Verdict}

/-- A run has one verdict, at one place. Only the place of a token that cannot be taken is left
open, as nothing is read after it. -/
theorem Verdict.Holds.unique {r : EStateM.Result ParseError (Parser CharCursor) Unit}
    (h : v.Holds (.parser 0 limit) m r) (h' : w.Holds (.parser 0 limit) n r) (hv : v ≠ .stuck) :
    n = m ∧ w = v := by
  have hw : w ≠ .stuck := by
    rintro rfl
    obtain ⟨_, _, -, rfl⟩ := h'
    cases v with
    | stuck => exact hv rfl
    | fits => cases h
    | lacks => cases h
    | tooDeep => cases h
  cases v with
  | stuck => exact absurd rfl hv
  | fits =>
    simp only [Holds] at h
    subst h
    cases w with
    | fits =>
      obtain ⟨-, hp⟩ := EStateM.Result.ok.inj h'
      exact ⟨(Parser.mk.inj hp).1.symm, rfl⟩
    | stuck => exact absurd rfl hw
    | lacks => cases h'
    | tooDeep => cases h'
  | lacks =>
    simp only [Holds] at h
    subst h
    cases w with
    | lacks =>
      obtain ⟨he, hp⟩ := EStateM.Result.error.inj h'
      obtain ⟨rfl, -⟩ := ParseError.unexpected.inj he
      exact ⟨(Parser.mk.inj hp).1.symm, rfl⟩
    | stuck => exact absurd rfl hw
    | fits => cases h'
    | tooDeep => cases h'
  | tooDeep =>
    simp only [Holds] at h
    subst h
    cases w with
    | tooDeep =>
      obtain ⟨-, hp⟩ := EStateM.Result.error.inj h'
      exact ⟨(Parser.mk.inj hp).1.symm, rfl⟩
    | stuck => exact absurd rfl hw
    | fits => cases h'
    | lacks => cases h'

/-- A run reaches its verdict wherever the same text is read before a token like the one where it
was reached. A run that nests too deep has not looked at that token, but needs the same limit. -/
theorem Verdict.Holds.of_reads (hle : limit ≤ levels) (hr : Reads c u m)
    (h : v.Holds (.parser 0 limit) m ((FilterRule.within limit).val.run ⟨c, 0, limit⟩))
    (hr' : Reads d u n) (hv : v ≠ .stuck) (ha : v ≠ .tooDeep → m.current.Alike n.current)
    (hsame : v = .tooDeep → limit = levels) :
    v.Holds (.parser 0 levels) n ((FilterRule.within levels).val.run ⟨d, 0, levels⟩) := by
  have tracks : Tracks (.parser 0 limit) (.parser 0 levels) (limit = levels) (limit = 0) c
      ((FilterRule.within limit).val.run ⟨c, 0, limit⟩)
      fun d : Lookahead CharCursor => (FilterRule.within levels).val.run ⟨d, 0, levels⟩ :=
    FilterRule.tracked_within limit hle id 0 0 c
  obtain ⟨ts, k, w, hp, hw, -, -, ht⟩ := tracks
  obtain ⟨rfl, rfl⟩ := h.unique hw hv
  have spelled : List.Forall₂ (fun ch t => Token.Spells t ch) u ts :=
    hr.forall₂_labels hp fun t ch t' hs he => he ▸ hs
  have path : Path (fun t' t => Token.Alike t t') d ts n :=
    hr'.relabel spelled fun t ch t' hs hs' => hs'.alike hs
  exact ht d n path ha (fun h => absurd h hv) hsame

/-- A filter is not cut short: where a run has a verdict against its input, no filter goes on with a
token like the one it was reached at. -/
theorem not_filter_of_holds (hr : Reads c u m)
    (h : v.Holds (.parser 0 limit) m ((FilterRule.within limit).val.run ⟨c, 0, limit⟩))
    (hfits : v ≠ .fits) (hstuck : v ≠ .stuck)
    (ha : v ≠ .tooDeep → ∀ n : Lookahead CharCursor, n.Heads (behind u rest) →
      m.current.Alike n.current)
    (hdeep : v = .tooDeep → levels ≤ limit) : ¬Filter levels (u ++ rest) := by
  intro hf
  have hf : Filter (max limit levels) (u ++ rest) := hf.mono (by omega)
  obtain ⟨d, hd⟩ : ∃ d : Lookahead CharCursor, d.Heads (behind [] (u ++ rest)) :=
    exists_heads hf.nulFree.head?_ne
  obtain ⟨k, hread, -⟩ := exists_reads hf.nulFree hd
  obtain ⟨n, hu, -⟩ := hread.split
  obtain ⟨rest', he, hn⟩ := hu.exists_rest hd
  cases List.append_cancel_left he
  have against : v.Holds (.parser 0 (max limit levels)) n
      ((FilterRule.within (max limit levels)).val.run ⟨d, 0, max limit levels⟩) := by
    apply h.of_reads (by omega) hr hu hstuck
    · intro h
      exact ha h n hn
    · intro h
      have := hdeep h
      omega
  have fits : FilterRule.Accepts 0 (max limit levels)
      (FilterRule.within (max limit levels)).val d k := FilterRule.accepts_within hread hf
  obtain ⟨e, s, he⟩ := against.exists_error hfits
  cases fits.symm.trans he

/-- A filter is not cut short where a run lacks a construct. -/
theorem not_filter_of_lacks {construct : Construct} (hr : Reads c u m)
    (h : (Verdict.lacks construct).Holds (.parser 0 limit) m
      ((FilterRule.within limit).val.run ⟨c, 0, limit⟩))
    (ha : ∀ n : Lookahead CharCursor, n.Heads (behind u rest) → m.current.Alike n.current) :
    ¬Filter levels (u ++ rest) :=
  not_filter_of_holds hr h nofun nofun (fun _ => ha) nofun

/-- What was read before a run has nested too deep begins no filter within the limit. -/
theorem not_filter_of_tooDeep (hr : Reads c u m)
    (h : Verdict.tooDeep.Holds (.parser 0 limit) m
      ((FilterRule.within limit).val.run ⟨c, 0, limit⟩)) : ¬Filter limit (u ++ rest) :=
  not_filter_of_holds hr h nofun nofun (fun h => absurd rfl h) fun _ => Nat.le_refl limit

/-- No filter is the beginning of another. -/
theorem Grammar.Filter.eq_nil_of_append (h : Filter limit u) (h' : Filter levels (u ++ rest)) :
    rest = [] := by
  have h : Filter (max limit levels) u := h.mono (by omega)
  have h' : Filter (max limit levels) (u ++ rest) := h'.mono (by omega)
  obtain ⟨c, hc⟩ : ∃ c : Lookahead CharCursor, c.Heads (behind [] (u ++ rest)) :=
    exists_heads h'.nulFree.head?_ne
  obtain ⟨n, hread, -⟩ := exists_reads h'.nulFree hc
  obtain ⟨m, hu, hrest⟩ := hread.split
  -- the run over the longer filter ends where it ends over the shorter one
  have fits : FilterRule.Accepts 0 0 (FilterRule.within (max limit levels)).val c m :=
    FilterRule.accepts_within hu h
  have fits' : FilterRule.Accepts 0 0 (FilterRule.within (max limit levels)).val c n :=
    FilterRule.accepts_within hread h'
  obtain ⟨-, hp⟩ := EStateM.Result.ok.inj (fits.symm.trans fits')
  have same : m = n := (Parser.mk.inj hp).1
  have length : rest.length = 0 := by
    have := hrest.remaining_le
    rw [same] at this
    omega
  exact List.length_eq_zero_iff.1 length

end LdapFilter
