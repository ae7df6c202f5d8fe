import JvmCode.Manipulation.Apply
/-!
# Successful emission

When an emission succeeds, each of its steps did, in the state that the steps before left.
The lemmas here take a successful application apart, from the tree down to the reply of the
sink, so that no proof about it unfolds the state that is threaded through.

## Main results

* `Emission.hand_eq_ok_iff`: a visit that the sink accepts.
* `Primitive.apply_eq_ok_iff`, `apply_compound_eq_ok_iff`, `applyAll_cons_eq_ok_iff`: the
  cases of a tree.
-/

namespace JvmCode

variable {σ : Type}

namespace Emission

/-- Two steps in turn succeed when the first does and the second does where the first ends. -/
theorem bind_eq_ok_iff {α β : Type} {first : Emission σ α} {next : α → Emission σ β}
    {state after : Emitting σ} {value : β} :
    (first >>= next) state = .ok value after ↔
      ∃ answer between, first state = .ok answer between ∧
        next answer between = .ok value after := by
  show EStateM.bind first next state = _ ↔ _
  unfold EStateM.bind
  cases first state with
  | ok answer between =>
      constructor
      · intro h
        exact ⟨answer, between, rfl, h⟩
      · rintro ⟨_, _, same, h⟩
        cases same
        exact h
  | error error between =>
      constructor
      · intro h
        cases h
      · rintro ⟨_, _, same, _⟩
        cases same

theorem pure_eq_ok_iff {α : Type} {value result : α} {state after : Emitting σ} :
    (pure value : Emission σ α) state = .ok result after ↔ value = result ∧ state = after := by
  show EStateM.Result.ok value state = .ok result after ↔ _
  rw [EStateM.Result.ok.injEq]

variable [MethodSink σ]

/-- The state after a visit that was accepted: the sink and the log of the reply. -/
theorem hand_eq_ok_iff {visit : Visit} {state after : Emitting σ} :
    hand visit state = .ok () after ↔
      (visit.hand state.sink).outcome = .ok () ∧
        after = ⟨(visit.hand state.sink).sink,
          state.log.append (visit.hand state.sink).log.toArray⟩ := by
  obtain ⟨sink, log⟩ := state
  rw [hand]
  rcases visit.hand sink with ⟨next, outcome, logged⟩
  cases outcome with
  | ok done =>
      constructor
      · intro h
        cases h
        exact ⟨rfl, rfl⟩
      · rintro ⟨_, rfl⟩
        rfl
  | error error =>
      constructor
      · intro h
        cases h
      · rintro ⟨h, _⟩
        cases h

end Emission

variable [MethodSink σ] {target : TargetClass} {state after : Emitting σ} {effect : StackEffect}

theorem Primitive.apply_eq_ok_iff {primitive : Primitive} :
    primitive.apply target state = .ok effect after ↔
      ∃ delivery, primitive.delivery target = .ok delivery ∧
        delivery.hand state = .ok () after ∧ effect = primitive.effect := by
  unfold apply
  cases primitive.delivery target with
  | error error =>
      constructor
      · intro h
        cases h
      · rintro ⟨_, h, _⟩
        cases h
  | ok delivery =>
      constructor
      · intro h
        obtain ⟨_, between, handed, answered⟩ := Emission.bind_eq_ok_iff.mp h
        obtain ⟨rfl, rfl⟩ := Emission.pure_eq_ok_iff.mp answered
        exact ⟨delivery, rfl, handed, rfl⟩
      · rintro ⟨_, same, handed, rfl⟩
        cases same
        exact Emission.bind_eq_ok_iff.mpr ⟨(), after, handed, rfl⟩

namespace Manipulation

theorem apply_step (primitive : Primitive) :
    apply (σ := σ) target (step primitive) = primitive.apply target := by
  rw [apply]

/-- In a valid compound all parts are applied in turn. -/
theorem apply_compound_of_valid {parts : List Manipulation}
    (valid : (compound parts).isValid = true) :
    apply (σ := σ) target (compound parts) = applyAll target .none parts := by
  have none : parts.find? (fun part => !part.isValid) = none := by
    rw [List.find?_eq_none]
    intro part member
    simpa using (isValid_compound parts).mp valid part member
  rw [apply, none]

theorem apply_compound_eq_ok_iff {parts : List Manipulation} :
    apply target (compound parts) state = .ok effect after ↔
      (compound parts).isValid = true ∧ applyAll target .none parts state = .ok effect after := by
  by_cases valid : (compound parts).isValid = true
  · rw [apply_compound_of_valid valid]
    simp only [valid, true_and]
  · constructor
    · intro h
      have invalid : (compound parts).isValid = false := Bool.eq_false_iff.mpr valid
      obtain ⟨record, refused⟩ := @apply_compound_of_invalid σ _ target parts invalid state
      rw [refused] at h
      cases h
    · rintro ⟨isValid, _⟩
      exact absurd isValid valid

theorem applyAll_nil_eq_ok_iff {total : StackEffect} :
    applyAll target total [] state = .ok effect after ↔ total = effect ∧ state = after := by
  rw [applyAll_nil]
  exact Emission.pure_eq_ok_iff

/-- A sequence succeeds when its first part does, and the others where that ends. -/
theorem applyAll_cons_eq_ok_iff {total : StackEffect} {part : Manipulation}
    {parts : List Manipulation} :
    applyAll target total (part :: parts) state = .ok effect after ↔
      ∃ own between, apply target part state = .ok own between ∧
        applyAll target (total.aggregate own) parts
          { between with log := between.log.push (.applied part own) } = .ok effect after := by
  rw [applyAll_cons]
  constructor
  · intro h
    obtain ⟨own, between, applied, rest⟩ := Emission.bind_eq_ok_iff.mp h
    obtain ⟨_, _, logged, others⟩ := Emission.bind_eq_ok_iff.mp rest
    cases logged
    exact ⟨own, between, applied, others⟩
  · rintro ⟨own, between, applied, others⟩
    refine Emission.bind_eq_ok_iff.mpr ⟨own, between, applied, ?_⟩
    exact Emission.bind_eq_ok_iff.mpr ⟨(), _, rfl, others⟩

end Manipulation

end JvmCode
