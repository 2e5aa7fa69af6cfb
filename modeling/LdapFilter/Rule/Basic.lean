import LdapFilter.Error.Parse

/-!
# Grammar rules

A rule reads one construct of the grammar from a state, or fails where the state does not fit. A
size bounds what a state has left to read, and a rule that succeeds never leaves a larger one
(`Rule.size_le`). So a rule may be repeated as long as each round leaves a smaller state, and
`run_repeatWhile` is the equation of that loop. Rules form a lawful monad, so sequences may be
regrouped.
-/

namespace LdapFilter

/-- A rule with a result in `α`, on states in `τ` of the size `size`. -/
@[ext] structure Rule (τ : Type) (size : τ → Nat) (α : Type) where
  /-- Reads the construct from a state and leaves the state after it. -/
  run : EStateM ParseError τ α
  /-- What is left is no larger than what there was. -/
  size_le : ∀ {s s' : τ} {a : α}, run s = .ok a s' → size s' ≤ size s

namespace Rule

variable {τ : Type} {size : τ → Nat} {α β : Type}

instance : Monad (Rule τ size) where
  pure a := {
    run := fun s => .ok a s
    size_le := fun h => by cases h; exact Nat.le_refl _ }
  bind rule next := {
    run := fun s =>
      match rule.run s with
      | .ok a s' => (next a).run s'
      | .error e s' => .error e s'
    size_le := fun h => by
      split at h
      · next hs => exact Nat.le_trans ((next _).size_le h) (rule.size_le hs)
      · cases h }

@[simp] theorem run_pure (a : α) (s : τ) : (pure a : Rule τ size α).run s = .ok a s :=
  rfl

/-- A rule and what follows it: the second starts where the first ends, and is not reached where
the first fails. -/
theorem run_bind (rule : Rule τ size α) (next : α → Rule τ size β) (s : τ) :
    (rule >>= next).run s =
      match rule.run s with
      | .ok a s' => (next a).run s'
      | .error e s' => .error e s' :=
  rfl

instance : LawfulMonad (Rule τ size) :=
  LawfulMonad.mk' _
    (fun rule => Rule.ext (funext fun s => by
      show (match rule.run s with
        | .ok a s' => .ok a s'
        | .error e s' => .error e s') = rule.run s
      split <;> simp only [*]))
    (fun _ _ => rfl)
    (fun rule _ _ => Rule.ext (funext fun s => by
      simp only [run_bind]
      cases rule.run s <;> rfl))

/-- That a rule leaves less whenever it succeeds. -/
def Consumes (rule : Rule τ size α) : Prop :=
  ∀ (s : τ) (a : α) (s' : τ), rule.run s = .ok a s' → size s' < size s

/-- One rule of a sequence that leaves less makes the whole sequence leave less. -/
theorem Consumes.bind {rule : Rule τ size α} (h : rule.Consumes) (next : α → Rule τ size β) :
    (rule >>= next).Consumes := by
  intro s b s'' hs
  rw [run_bind] at hs
  split at hs
  · next a s' ha => exact Nat.lt_of_le_of_lt ((next a).size_le hs) (h s a s' ha)
  · cases hs

/-- The state after as many rounds as `again` asks for. The result of a round is matched together
with the bound on what it leaves, so that the next round starts from a smaller state. -/
def rounds (again : τ → Bool) (round : Rule τ size Unit)
    (lt : ∀ s s', again s → round.run s = .ok () s' → size s' < size s) (s : τ) :
    EStateM.Result ParseError τ Unit :=
  if h : again s then
    match (⟨round.run s, (lt s · h)⟩ :
        { result // ∀ s', result = .ok () s' → size s' < size s }) with
    | ⟨.ok _ s', hs⟩ =>
      have := hs s' rfl
      rounds again round lt s'
    | ⟨.error e s', _⟩ => .error e s'
  else .ok () s
termination_by size s
decreasing_by exact this

theorem size_rounds_le {again : τ → Bool} {round : Rule τ size Unit}
    {lt : ∀ s s', again s → round.run s = .ok () s' → size s' < size s} {s s' : τ}
    (h : rounds again round lt s = .ok () s') : size s' ≤ size s := by
  fun_induction rounds again round lt s with
  | case1 s _ _ s₁ hs _ _ ih => exact Nat.le_trans (ih h) (Nat.le_of_lt (hs s₁ rfl))
  | case2 => cases h
  | case3 => cases h; exact Nat.le_refl _

/-- Runs `round` as long as `again` holds. A round may be asked for only where it takes something
if it succeeds. -/
def repeatWhile (again : τ → Bool) (round : Rule τ size Unit)
    (lt : ∀ s s', again s → round.run s = .ok () s' → size s' < size s) : Rule τ size Unit where
  run := rounds again round lt
  size_le := size_rounds_le

/-- A loop is one round and the same loop again, or nothing. -/
theorem run_repeatWhile (again : τ → Bool) (round : Rule τ size Unit)
    (lt : ∀ s s', again s → round.run s = .ok () s' → size s' < size s) (s : τ) :
    (repeatWhile again round lt).run s =
      if again s then (round >>= fun _ => repeatWhile again round lt).run s else .ok () s := by
  rw [run_bind]
  show rounds again round lt s = _
  rw [rounds]
  split
  · split
    · next hs =>
      rw [Subtype.mk.inj hs]
      rfl
    · next hs => rw [Subtype.mk.inj hs]
  · rfl

end Rule

end LdapFilter
