import JvmCode.Proofs.Manipulation.Delivery
/-!
# Emissions that agree

Two sinks may differ in something that their answers never show, as tracers with different labels
do. A relation between sinks is a *bisimulation* if related sinks give the same answer to every
visit and are related again afterwards. Layers carry a bisimulation of the sinks behind them on to
themselves.

Two emissions *agree* if, from related sinks, they give the same answer and leave related sinks.
Nothing is said about what they log. Agreement is kept by all the ways to make emissions out of
others, so that two runs of a long emission are compared step by step.

## Main results

* `IsBisimulation.tracer`, `IsBisimulation.meter`: layers on related sinks.
* `Agree.bind`, `Agree.observe`, `Agree.hand`: emissions made of others.
* `Agree.of_performs`: emissions that go by the same script.
-/

namespace JvmCode

variable {σ : Type} [MethodSink σ]

/-! ## Bisimulations -/

namespace Visit

/-- Related sinks give the same answer to every visit, and the sinks they become are related. -/
def IsBisimulation (alike : σ → σ → Prop) : Prop :=
  ∀ (visit : Visit) (a b : σ), alike a b →
    (visit.hand a).outcome = (visit.hand b).outcome ∧ alike (visit.hand a).sink (visit.hand b).sink

namespace IsBisimulation

theorem eq : IsBisimulation (Eq : σ → σ → Prop) := by
  rintro visit sink _ rfl
  exact ⟨rfl, rfl⟩

variable {alike : σ → σ → Prop}

/-- The label of a tracer and the number of instructions it was handed do not matter. -/
theorem tracer (h : IsBisimulation alike) :
    IsBisimulation fun a b : Tracer σ => alike a.inner b.inner := by
  intro visit a b related
  obtain ⟨outcomeA, innerA⟩ := Tracer.hand_forwarded visit a
  obtain ⟨outcomeB, innerB⟩ := Tracer.hand_forwarded visit b
  obtain ⟨sameOutcome, stillRelated⟩ := h visit.forwarded a.inner b.inner related
  rw [← outcomeA, ← outcomeB] at sameOutcome
  rw [← innerA, ← innerB] at stillRelated
  exact ⟨sameOutcome, stillRelated⟩

/-- Meters that have measured the same go on measuring the same. -/
theorem meter (h : IsBisimulation alike) :
    IsBisimulation fun a b : StackMeter σ => alike a.inner b.inner ∧ a.observed = b.observed := by
  -- Both ways to hand an instruction over are the same for a meter.
  have delivers : ∀ (instruction : Instruction) (a b : StackMeter σ),
      alike a.inner b.inner → a.observed = b.observed →
      let first := StackMeter.accept instruction a
      let second := StackMeter.accept instruction b
      first.outcome = second.outcome ∧ alike first.sink.inner second.sink.inner ∧
        first.sink.observed = second.sink.observed := by
    rintro instruction ⟨innerA, depth, peak⟩ ⟨innerB, _, _⟩ related sameObserved
    cases sameObserved
    cases known : instruction.flow with
    | error error =>
        rw [StackMeter.accept, StackMeter.accept, known]
        exact ⟨rfl, related, rfl⟩
    | ok flow =>
        obtain ⟨sameOutcome, stillRelated⟩ := h (.instruction instruction) innerA innerB related
        have sameAnswer : (MethodSink.accept instruction innerA).outcome
            = (MethodSink.accept instruction innerB).outcome := sameOutcome
        rw [StackMeter.accept_of_flow known, StackMeter.accept_of_flow known]
        simp only
        rw [sameAnswer]
        cases (MethodSink.accept instruction innerB).outcome with
        | ok done => exact ⟨rfl, stillRelated, rfl⟩
        | error error => exact ⟨rfl, stillRelated, rfl⟩
  rintro visit a b ⟨related, sameObserved⟩
  cases visit with
  | instruction delivered => exact delivers delivered a b related sameObserved
  | call delivered => exact delivers (.invoke delivered) a b related sameObserved
  | limits maxStack maxLocals =>
      obtain ⟨sameOutcome, stillRelated⟩ := h (.limits maxStack maxLocals) _ _ related
      exact ⟨sameOutcome, stillRelated, sameObserved⟩
  | finish =>
      obtain ⟨sameOutcome, stillRelated⟩ := h .finish _ _ related
      exact ⟨sameOutcome, stillRelated, sameObserved⟩

/-- Related sinks take the same visits of a delivery. -/
theorem deliver (h : IsBisimulation alike) (visits : List Visit) {a b : σ} (related : alike a b) :
    (Visit.deliver a visits).2 = (Visit.deliver b visits).2 ∧
      alike (Visit.deliver a visits).1 (Visit.deliver b visits).1 := by
  induction visits generalizing a b with
  | nil => exact ⟨rfl, related⟩
  | cons visit visits ih =>
      obtain ⟨sameOutcome, stillRelated⟩ := h visit a b related
      cases answer : (visit.hand b).outcome with
      | ok done =>
          rw [deliver_of_accepted (sameOutcome.trans answer), deliver_of_accepted answer]
          exact ih stillRelated
      | error error =>
          rw [deliver_of_refused (sameOutcome.trans answer), deliver_of_refused answer]
          exact ⟨rfl, stillRelated⟩

/-- Related sinks end a script in the same way. -/
theorem perform (h : IsBisimulation alike) {α : Type} (script : Script α) {a b : σ}
    (related : alike a b) :
    (script.perform a).2 = (script.perform b).2 ∧
      alike (script.perform a).1 (script.perform b).1 := by
  have delivers : ∀ sink : σ, script.perform sink = ((Visit.deliver sink script.visits).1,
      (Visit.deliver sink script.visits).2.bind fun _ => script.ending) := by
    intro sink
    unfold Script.perform
    rcases Visit.deliver sink script.visits with ⟨final, _ | _⟩ <;> rfl
  obtain ⟨sameOutcome, stillRelated⟩ := h.deliver script.visits related
  rw [delivers, delivers, sameOutcome]
  exact ⟨rfl, stillRelated⟩

end IsBisimulation

end Visit

/-! ## Agreement -/

namespace Emission

/-- From related sinks, the emissions give the same answer and leave related sinks. -/
def Agree {α : Type} (alike : σ → σ → Prop) (first second : Emission σ α) : Prop :=
  ∀ a b : Emitting σ, alike a.sink b.sink →
    (outcome (first a)).2 = (outcome (second b)).2 ∧
      alike (outcome (first a)).1 (outcome (second b)).1

namespace Agree

variable {α β : Type} {alike : σ → σ → Prop}

omit [MethodSink σ] in
theorem pure (value : α) : Agree alike (Pure.pure value) (Pure.pure value) :=
  fun _ _ related => ⟨rfl, related⟩

omit [MethodSink σ] in
/-- Whatever would have come next, both fail with the same error. -/
theorem throw (error : EmitError) (next next' : α → Emission σ β) :
    Agree alike (MonadExcept.throw error >>= next) (MonadExcept.throw error >>= next') :=
  fun _ _ related => ⟨rfl, related⟩

omit [MethodSink σ] in
/-- Two emissions in turn. The second ones only have to agree on the answer of the first. -/
theorem bind {first second : Emission σ α} {next next' : α → Emission σ β}
    (h : Agree alike first second) (rest : ∀ value, Agree alike (next value) (next' value)) :
    Agree alike (first >>= next) (second >>= next') := by
  intro a b related
  obtain ⟨sameAnswer, stillRelated⟩ := h a b related
  show (outcome (EStateM.bind first next a)).2 = (outcome (EStateM.bind second next' b)).2 ∧
    alike (outcome (EStateM.bind first next a)).1 (outcome (EStateM.bind second next' b)).1
  unfold EStateM.bind
  cases runA : first a <;> cases runB : second b <;> rw [runA, runB] at sameAnswer stillRelated
  · cases sameAnswer
    exact rest _ _ _ stillRelated
  · cases sameAnswer
  · cases sameAnswer
  · cases sameAnswer
    exact ⟨rfl, stillRelated⟩

omit [MethodSink σ] in
/-- Reading the state. What comes next may depend on it as far as related sinks allow. -/
theorem observe {next next' : Emitting σ → Emission σ α}
    (rest : ∀ a b, alike a.sink b.sink → Agree alike (next a) (next' b)) :
    Agree alike (get >>= next) (get >>= next') :=
  fun a b related => rest a b related a b related

/-- Emissions that go by one script agree. -/
theorem of_performs (h : Visit.IsBisimulation alike) {first second : Emission σ α}
    {script : Script α} (performs : Performs first script) (performs' : Performs second script) :
    Agree alike first second := by
  intro a b related
  rw [performs a, performs' b]
  exact h.perform script related

theorem hand (h : Visit.IsBisimulation alike) (visit : Visit) :
    Agree alike (Emission.hand visit) (Emission.hand visit) :=
  of_performs h (.hand visit) (.hand visit)

end Agree

end Emission

end JvmCode
