import LdapFilter.Proofs.Calls
import LdapFilter.Proofs.Locality

/-!
# The lexer of octets past its errors

The lexer of octets can be called on after it has failed. Between two calls it stands between octets
of its input. A call passes the octets of a token, or of a spelling that breaks off, and leaves the
lexer behind them; or it passes none and leaves the lexer as it was, so that every later call has
the same outcome (`ByteCursor.Passes`). So what has been read lies end to end from the first octet
to where the lexer stands, however often it is called and whatever the outcomes are
(`ByteCursor.exists_between`).
-/

namespace LdapFilter

open TokenSource (call after call_of_ok call_of_error)

/-! ## Outcomes of calls -/

namespace TokenSource

variable {σ : Type} [TokenSource σ]

/-- The outcomes of `n` calls, in order. -/
def outcomes : (n : Nat) → σ → List (Except LexError Token)
  | 0, _ => []
  | n + 1, s => (call s).1 :: outcomes n (call s).2

theorem after_succ (n : Nat) (s : σ) : after (n + 1) s = (call (after n s)).2 := by
  induction n generalizing s with
  | zero => rfl
  | succ n ih => exact ih (call s).2

theorem after_add (n k : Nat) (s : σ) : after (n + k) s = after k (after n s) := by
  induction n generalizing s with
  | zero => rw [Nat.zero_add]; rfl
  | succ n ih =>
    rw [Nat.succ_add_eq_add_succ, Nat.add_succ]
    exact ih (call s).2

theorem outcomes_succ (n : Nat) (s : σ) :
    outcomes (n + 1) s = outcomes n s ++ [(call (after n s)).1] := by
  induction n generalizing s with
  | zero => rfl
  | succ n ih =>
    show (call s).1 :: outcomes (n + 1) (call s).2 = _
    rw [ih]
    rfl

/-- A source that a call leaves as it was is left so by every call. -/
theorem after_of_call_eq {s : σ} (h : (call s).2 = s) (k : Nat) : after k s = s := by
  induction k with
  | zero => rfl
  | succ k ih => rw [after_succ, ih, h]

end TokenSource

open TokenSource (outcomes after_succ after_add outcomes_succ after_of_call_eq)

/-- The spans fill the octets from `start` to `stop`: they lie end to end, and none is empty. -/
inductive Span.Fill : (start : Nat) → List Span → (stop : Nat) → Prop where
  | nil (start : Nat) : Fill start [] start
  | cons {s : Span} {ss : List Span} {stop : Nat} (more : s.start < s.stop)
      (rest : Fill s.stop ss stop) : Fill s.start (s :: ss) stop

theorem Span.Fill.append {a b c : Nat} {ss ss' : List Span} (h : Fill a ss b)
    (h' : Fill b ss' c) : Fill a (ss ++ ss') c := by
  induction h with
  | nil => exact h'
  | cons more _ ih => exact .cons more (ih h')

/-- The octets that a call has passed: those of a token, or of a spelling that breaks off. -/
def passedSpan? : Except LexError Token → Option Span
  | .ok t => if t.isEof then none else some t.span
  | .error e => if e.isMalformed then e.span.toOption else none

/-! ## One call -/

namespace ByteCursor

/-- A call of the lexer behind `before`, in front of `found` and `left`, passes `found`. -/
structure Passes (before found left : List UInt8) (outcome : Except LexError Token) : Prop where
  call_eq : call (between before (found ++ left)) = (outcome, between (before ++ found) left)
  passed : passedSpan? outcome =
    if found = [] then none else some ⟨before.length, (before ++ found).length⟩
  fault : ∀ e, outcome = .error e →
    (∃ span, e.span = .ok span) ∧ e.position = (before ++ found).length

/-- A call that leaves the lexer where it is passes nothing. -/
theorem Passes.of_stays {before left : List UInt8} {outcome : Except LexError Token}
    (h : call (between before left) = (outcome, between before left))
    (hp : passedSpan? outcome = none) (hf : ∀ e, outcome = .error e →
      (∃ span, e.span = .ok span) ∧ e.position = before.length) :
    Passes before [] left outcome := by
  refine ⟨?_, by rw [hp, if_pos rfl], ?_⟩
  · rwa [List.append_nil]
  · rwa [List.append_nil]

theorem exists_passes (before rest : List UInt8) :
    ∃ found left outcome, rest = found ++ left ∧ Passes before found left outcome := by
  cases Utf8.onset rest with
  | nil => exact ⟨[], [], _, rfl, .of_stays (call_of_ok (next_nil before.length)) rfl nofun⟩
  | encoded ch rest =>
    cases hk : Terminal.ofChar? ch with
    | none =>
      cases Terminal.ofChar?_eq_none_iff.1 hk
      refine ⟨[], 0 :: rest, _, rfl, .of_stays (call_of_error (next_nul rest before.length)) rfl ?_⟩
      rintro _ ⟨⟩
      exact ⟨⟨_, Span.ofBounds?_octet before 0⟩, rfl⟩
    | some kind =>
      have more : kind ≠ .eof := fun he => Terminal.ofChar?_ne_eof ch (he ▸ hk)
      have next := next_encode hk rest before.length
      rw [← List.length_append] at next
      refine ⟨Utf8.encode ch, rest, _, rfl, call_of_ok next, ?_, nofun⟩
      have octets : Utf8.encode ch ≠ [] := by
        obtain ⟨lead, tail, he⟩ := Utf8.exists_encode_cons ch
        rw [he]
        exact List.cons_ne_nil lead tail
      rw [if_neg octets]
      exact if_neg fun he => more (of_decide_eq_true he)
  | @invalid lead rest hl hn =>
    have refused := next_invalid rest before.length hl hn
    refine ⟨[], lead :: rest, _, rfl, .of_stays (call_of_error refused) rfl ?_⟩
    rintro _ ⟨⟩
    exact ⟨⟨_, Span.ofBounds?_octet before lead⟩, rfl⟩
  | @broken lead length found left hl hn _ hlt hfound _ =>
    have refused := next_malformed before.length hl hn hfound (by omega)
    have fault : before.length + 1 + found.length = (before ++ lead :: found).length := by
      simp only [List.length_append, List.length_cons]
      omega
    have place : before.length + (1 + found.length) = (before ++ lead :: found).length := by
      rw [← fault, Nat.add_assoc]
    rw [fault, place] at refused
    have span : Span.ofBounds? before.length (before ++ lead :: found).length =
        .ok ⟨before.length, (before ++ lead :: found).length⟩ :=
      Span.ofBounds?_eq_ok_iff.2 ⟨by simp, rfl⟩
    refine ⟨lead :: found, left, _, rfl, call_of_error refused, ?_, ?_⟩
    · show (Span.ofBounds? _ _).toOption = _
      rw [span]
      rfl
    · rintro _ ⟨⟩
      exact ⟨⟨_, span⟩, rfl⟩

namespace Passes

variable {before found left : List UInt8} {outcome : Except LexError Token}

/-- What a call has passed lies from where the lexer stood to where it stands. -/
theorem fill (h : Passes before found left outcome) :
    Span.Fill before.length (passedSpan? outcome).toList (before ++ found).length := by
  rw [h.passed]
  by_cases hf : found = []
  · rw [if_pos hf, hf, List.append_nil]
    exact .nil _
  · rw [if_neg hf]
    have more : before.length < (before ++ found).length := by
      have := List.length_pos_iff.2 hf
      rw [List.length_append]
      omega
    exact .cons (s := ⟨before.length, (before ++ found).length⟩) more (.nil _)

/-- A call that passes nothing has the same outcome ever after. -/
theorem again (h : Passes before found left outcome) (hp : passedSpan? outcome = none) (k : Nat) :
    (call (after k (between before (found ++ left)))).1 = outcome := by
  have stays : found = [] := by
    by_contra hf
    have passed := h.passed
    rw [hp, if_neg hf] at passed
    cases passed
  have fixed : (call (between before (found ++ left))).2 = between before (found ++ left) := by
    rw [h.call_eq, stays, List.append_nil, List.nil_append]
  rw [after_of_call_eq fixed, h.call_eq]

end Passes

/-! ## Many calls -/

/-- The lexer stands between octets, and what has been read fills those behind it. -/
theorem exists_between (bytes : List UInt8) (n : Nat) :
    ∃ before rest, bytes = before ++ rest ∧ after n (ofList bytes) = between before rest ∧
      Span.Fill 0 ((outcomes n (ofList bytes)).filterMap passedSpan?) before.length := by
  induction n with
  | zero => exact ⟨[], bytes, rfl, rfl, .nil 0⟩
  | succ n ih =>
    obtain ⟨before, rest, hbytes, hafter, hfill⟩ := ih
    obtain ⟨found, left, outcome, rfl, passes⟩ := exists_passes before rest
    refine ⟨before ++ found, left, by rw [hbytes, List.append_assoc], ?_, ?_⟩
    · rw [after_succ, hafter, passes.call_eq]
    · rw [outcomes_succ, hafter, passes.call_eq, List.filterMap_append]
      have last : [outcome].filterMap passedSpan? = (passedSpan? outcome).toList := by
        rw [List.filterMap_cons, List.filterMap_nil]
        cases passedSpan? outcome <;> rfl
      rw [last]
      exact hfill.append passes.fill

/-- The lexer never goes back. -/
theorem position_le_add (bytes : List UInt8) (n k : Nat) :
    TokenSource.position (after n (ofList bytes)) ≤
      TokenSource.position (after (n + k) (ofList bytes)) := by
  induction k with
  | zero => exact Nat.le_refl _
  | succ k ih =>
    obtain ⟨before, rest, -, hafter, -⟩ := exists_between bytes (n + k)
    obtain ⟨found, left, outcome, rfl, passes⟩ := exists_passes before rest
    have next : TokenSource.position (after (n + (k + 1)) (ofList bytes)) =
        (before ++ found).length := by
      rw [← Nat.add_assoc, after_succ, hafter, passes.call_eq]
      rfl
    have here : TokenSource.position (after (n + k) (ofList bytes)) = before.length := by
      rw [hafter]
      rfl
    rw [here] at ih
    rw [next, List.length_append]
    exact Nat.le_trans ih (Nat.le_add_right _ _)

/-- What is so after `n` calls of the lexer over `bytes`, and of the next call. -/
structure Runs (bytes : List UInt8) (n : Nat) : Prop where
  position_le : TokenSource.position (after n (ofList bytes)) ≤ bytes.length
  advances : ∀ k, TokenSource.position (after n (ofList bytes)) ≤
    TokenSource.position (after (n + k) (ofList bytes))
  fill : Span.Fill 0 ((outcomes n (ofList bytes)).filterMap passedSpan?)
    (TokenSource.position (after n (ofList bytes)))
  fault : ∀ e, (call (after n (ofList bytes))).1 = .error e →
    (∃ span, e.span = .ok span) ∧ TokenSource.position (after (n + 1) (ofList bytes)) = e.position
  /-- Octets that are refused are refused for ever. -/
  refuses : ∀ e, (call (after n (ofList bytes))).1 = .error e → ¬e.isMalformed →
    ∀ k, (call (after (n + k) (ofList bytes))).1 = .error e
  ends : ∀ t, (call (after n (ofList bytes))).1 = .ok t → t.kind = .eof →
    ∀ k, (call (after (n + k) (ofList bytes))).1 = .ok t
  /-- Behind a spelling that breaks off the lexer goes on with the octet at fault. -/
  resumes : ∀ lead offset length fault,
    (call (after n (ofList bytes))).1 = .error (.malformedSequence lead offset length fault) →
    after (n + 1) (ofList bytes) = ⟨bytes.drop fault, fault⟩

end ByteCursor

open ByteCursor (ofList between exists_passes exists_between position_le_add)

/-- **The lexer of octets past its errors.** However often the lexer is called and whatever it
answers, it never goes back and never leaves its input, and the tokens and the broken spellings that
it has found fill the octets behind it. It stands where an error says; a broken spelling it leaves
behind, and what else it has refused, or the end, it finds again for ever. -/
theorem byte_lexer_runs (bytes : List UInt8) (n : Nat) : ByteCursor.Runs bytes n := by
  obtain ⟨before, rest, hbytes, hafter, hfill⟩ := exists_between bytes n
  obtain ⟨found, left, outcome, rfl, passes⟩ := exists_passes before rest
  have next : after (n + 1) (ofList bytes) = between (before ++ found) left := by
    rw [after_succ, hafter, passes.call_eq]
  have again (hp : passedSpan? outcome = none) (k : Nat) :
      (call (after (n + k) (ofList bytes))).1 = outcome := by
    rw [after_add, hafter]
    exact passes.again hp k
  have hcall : (call (after n (ofList bytes))).1 = outcome := by rw [hafter, passes.call_eq]
  constructor
  · rw [hafter, hbytes, List.length_append]
    exact Nat.le_add_right _ _
  · exact position_le_add bytes n
  · rw [hafter]
    exact hfill
  · intro e he
    rw [next]
    obtain ⟨span, position⟩ := passes.fault e (hcall.symm.trans he)
    exact ⟨span, position.symm⟩
  · intro e he hm k
    rw [← he, hcall]
    apply again
    rw [← hcall, he]
    exact if_neg hm
  · intro t ht hk k
    rw [← ht, hcall]
    apply again
    rw [← hcall, ht]
    exact if_pos (decide_eq_true hk)
  · intro lead offset length fault he
    obtain ⟨-, position⟩ := passes.fault _ (hcall.symm.trans he)
    have position : fault = (before ++ found).length := position
    rw [next, position, hbytes, ← List.append_assoc, List.drop_left]
    rfl

/-- Two octets of a spelling of three, and behind them a letter and an octet that begins no
spelling. -/
example : outcomes 4 (ofList [0xE2, 0x82, 0x61, 0xFF]) =
    [.error (.malformedSequence 0xE2 0 3 2), .ok ⟨.alpha, "a", 2, ⟨2, 3⟩⟩,
      .error (.invalidByte 0xFF 3), .error (.invalidByte 0xFF 3)] := by
  decide +kernel

end LdapFilter
