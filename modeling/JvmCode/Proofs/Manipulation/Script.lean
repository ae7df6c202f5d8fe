import JvmCode.Proofs.Manipulation.Emission
import JvmCode.Proofs.Sink.Taking
/-!
# Scripts

An emission cannot look at the sink it has. It hands something over and goes on, or, where that
is refused, ends with the error of the sink. So a *script* tells what it does to any sink: the
visits it makes, in order, and how it ends if none of them is refused. `Performs` says that an
emission goes by a script. Scripts are composed as emissions are (`Script.andThen`), and one
rule for each way to make emissions keeps the two together, above all `Performs.bind`.

What a script does to a sink is to hand the visits over up to the first that is refused
(`Visit.deliver`). The log is left out: sinks do not see it.

## Main results

* `Visit.deliver_eq_ok_iff`, `Visit.exists_refused`: a delivery that goes through, or not.
* `Script.perform_andThen`: a script and then another one.
* `Performs.pure`, `Performs.throw`, `Performs.log`, `Performs.hand`, `Performs.bind`: the rules.
-/

namespace JvmCode

variable {σ : Type} [MethodSink σ]

/-! ## Delivering visits -/

namespace Visit

/-- Hands visits to a sink in turn, up to the first that it refuses. Answers the sink that is
left, and the error if there was one. -/
def deliver (sink : σ) : List Visit → σ × Except EmitError Unit
  | [] => (sink, .ok ())
  | visit :: visits =>
    match (visit.hand sink).outcome with
    | .ok () => deliver (visit.hand sink).sink visits
    | .error error => ((visit.hand sink).sink, .error error)

section Deliver

variable {sink final : σ} {visit : Visit} {visits : List Visit} {error : EmitError}

theorem deliver_of_accepted (accepted : (visit.hand sink).outcome = .ok ()) :
    deliver sink (visit :: visits) = deliver (visit.hand sink).sink visits := by
  rw [deliver, accepted]

theorem deliver_of_refused (refused : (visit.hand sink).outcome = .error error) :
    deliver sink (visit :: visits) = ((visit.hand sink).sink, .error error) := by
  rw [deliver, refused]

/-- All visits are delivered just if the sink takes them. -/
theorem deliver_eq_ok_iff : deliver sink visits = (final, .ok ()) ↔ Takes sink visits final := by
  induction visits generalizing sink with
  | nil =>
      constructor
      · intro h
        cases h
        exact .nil _
      · intro h
        cases h
        rfl
  | cons visit visits ih =>
      cases answer : (visit.hand sink).outcome with
      | ok done =>
          rw [deliver_of_accepted answer, ih]
          constructor
          · exact fun rest => .cons answer rest
          · rintro (_ | ⟨_, rest⟩)
            exact rest
      | error error =>
          rw [deliver_of_refused answer]
          constructor
          · intro h
            cases h
          · rintro (_ | ⟨accepted, _⟩)
            rw [answer] at accepted
            cases accepted

/-- Where a delivery fails, the sink took the visits up to one that it refused with the error. -/
theorem exists_refused (h : deliver sink visits = (final, .error error)) :
    ∃ taken refused rest between, visits = taken ++ refused :: rest ∧ Takes sink taken between ∧
      (refused.hand between).outcome = .error error ∧ (refused.hand between).sink = final := by
  induction visits generalizing sink with
  | nil => cases h
  | cons visit visits ih =>
      cases answer : (visit.hand sink).outcome with
      | ok done =>
          rw [deliver_of_accepted answer] at h
          obtain ⟨taken, refused, rest, between, rfl, first, isError, isFinal⟩ := ih h
          exact ⟨visit :: taken, refused, rest, between, rfl, .cons answer first, isError, isFinal⟩
      | error other =>
          rw [deliver_of_refused answer] at h
          cases h
          exact ⟨[], visit, visits, sink, rfl, .nil sink, answer, rfl⟩

theorem deliver_append (sink : σ) (visits more : List Visit) :
    deliver sink (visits ++ more) =
      match deliver sink visits with
      | (between, .ok ()) => deliver between more
      | (final, .error error) => (final, .error error) := by
  induction visits generalizing sink with
  | nil => rfl
  | cons visit visits ih =>
      rw [List.cons_append]
      cases answer : (visit.hand sink).outcome with
      | ok done => rw [deliver_of_accepted answer, deliver_of_accepted answer, ih]
      | error error => rw [deliver_of_refused answer, deliver_of_refused answer]

end Deliver

end Visit

/-! ## Scripts -/

/-- Visits in the order in which they are made, and how an emission that makes them ends if none
of them is refused. -/
structure Script (α : Type) where
  visits : List Visit
  ending : Except EmitError α

namespace Script

variable {α β γ : Type}

/-- Nothing is handed over. -/
def answer (value : α) : Script α := ⟨[], .ok value⟩

/-- Nothing is handed over, and the emission fails. -/
def stop (error : EmitError) : Script α := ⟨[], .error error⟩

/-- The first script, and if it comes to its end without an error, the next one. -/
def andThen (first : Script α) (next : α → Script β) : Script β :=
  match first.ending with
  | .ok value => ⟨first.visits ++ (next value).visits, (next value).ending⟩
  | .error error => ⟨first.visits, .error error⟩

/-- Goes by the script with a sink. Answers the sink that is left, and the answer. -/
def perform (script : Script α) (sink : σ) : σ × Except EmitError α :=
  match Visit.deliver sink script.visits with
  | (final, .ok ()) => (final, script.ending)
  | (final, .error error) => (final, .error error)

theorem andThen_assoc (first : Script α) (next : α → Script β) (last : β → Script γ) :
    (first.andThen next).andThen last = first.andThen fun value => (next value).andThen last := by
  obtain ⟨visits, ending⟩ := first
  cases ending with
  | error error => rfl
  | ok value =>
      simp only [andThen]
      cases (next value).ending with
      | error error => rfl
      | ok other => simp only [List.append_assoc]

/-- Answering something else makes no further visits. -/
theorem andThen_answer (first : Script α) (value : β) :
    (first.andThen fun _ => answer value) = ⟨first.visits, first.ending.map fun _ => value⟩ := by
  obtain ⟨visits, ending⟩ := first
  cases ending with
  | error error => rfl
  | ok _ => simp only [andThen, answer, List.append_nil, Except.map]

/-- A script that ends with a fixed answer cannot end with another one. -/
theorem eq_of_ending_andThen_answer {first : Script α} {value other : β}
    (h : (first.andThen fun _ => answer value).ending = .ok other) : other = value := by
  rw [andThen_answer] at h
  cases ends : first.ending with
  | error error =>
      rw [ends] at h
      cases h
  | ok _ =>
      rw [ends] at h
      exact (Except.ok.inj h).symm

/-- A script answers where the sink takes all visits and its end is an answer. -/
theorem perform_eq_ok_iff {script : Script α} {sink final : σ} {value : α} :
    script.perform sink = (final, .ok value) ↔
      Takes sink script.visits final ∧ script.ending = .ok value := by
  rw [← Visit.deliver_eq_ok_iff, perform]
  rcases Visit.deliver sink script.visits with ⟨between, _ | _⟩
  · simp
  · simp

theorem perform_of_takes {script : Script α} {sink final : σ}
    (taken : Takes sink script.visits final) : script.perform sink = (final, script.ending) := by
  rw [perform, Visit.deliver_eq_ok_iff.mpr taken]

/-- A script that ends with an answer gives it where nothing is refused. -/
theorem perform_answering (visits : List Visit) (value : α) (sink : σ) :
    perform ⟨visits, .ok value⟩ sink
      = ((Visit.deliver sink visits).1, (Visit.deliver sink visits).2.map fun () => value) := by
  unfold perform
  rcases Visit.deliver sink visits with ⟨final, _ | _⟩ <;> rfl

/-- A script that fails does so because a visit was refused, or at its end. -/
theorem perform_eq_error {script : Script α} {sink final : σ} {error : EmitError}
    (h : script.perform sink = (final, .error error)) :
    Visit.deliver sink script.visits = (final, .error error) ∨
      Takes sink script.visits final ∧ script.ending = .error error := by
  rw [← Visit.deliver_eq_ok_iff]
  unfold perform at h
  split at h
  · next between delivered =>
      obtain ⟨rfl, isError⟩ := Prod.mk.inj h
      exact .inr ⟨delivered, isError⟩
  · next between other refused =>
      cases h
      exact .inl refused

/-- The second script goes on with the sink that the first one left. -/
theorem perform_andThen (first : Script α) (next : α → Script β) (sink : σ) :
    (first.andThen next).perform sink =
      match first.perform sink with
      | (between, .ok value) => (next value).perform between
      | (final, .error error) => (final, .error error) := by
  obtain ⟨visits, ending⟩ := first
  cases ending with
  | error error =>
      simp only [andThen, perform]
      rcases Visit.deliver sink visits with ⟨final, _ | _⟩ <;> rfl
  | ok value =>
      simp only [andThen, perform, Visit.deliver_append]
      rcases Visit.deliver sink visits with ⟨between, _ | _⟩ <;> rfl

end Script

/-! ## Emissions that go by a script -/

/-- The sink that an emission leaves, and what it answers. -/
def Emission.outcome {α : Type} :
    EStateM.Result EmitError (Emitting σ) α → σ × Except EmitError α
  | .ok value state => (state.sink, .ok value)
  | .error error state => (state.sink, .error error)

omit [MethodSink σ] in
theorem Emission.outcome_eq_ok_iff {α : Type} {result : EStateM.Result EmitError (Emitting σ) α}
    {final : σ} {value : α} :
    Emission.outcome result = (final, .ok value) ↔
      ∃ after, result = .ok value after ∧ after.sink = final := by
  cases result with
  | ok other state =>
      constructor
      · intro h
        cases h
        exact ⟨state, rfl, rfl⟩
      · rintro ⟨_, same, rfl⟩
        cases same
        rfl
  | error error state =>
      constructor
      · intro h
        cases h
      · rintro ⟨_, same, _⟩
        cases same

/-- Whatever sink it has, the emission does to it what the script does. -/
def Performs {α : Type} (emission : Emission σ α) (script : Script α) : Prop :=
  ∀ state, Emission.outcome (emission state) = script.perform state.sink

namespace Performs

variable {α β : Type}

theorem pure (value : α) : Performs (σ := σ) (Pure.pure value) (.answer value) := fun _ => rfl

theorem throw (error : EmitError) :
    Performs (σ := σ) (α := α) (MonadExcept.throw error) (.stop error) := fun _ => rfl

theorem log (record : LogRecord) : Performs (σ := σ) (Emission.log record) (.answer ()) :=
  fun _ => rfl

/-- Handing something over is a script of one visit. -/
theorem hand (visit : Visit) : Performs (σ := σ) (Emission.hand visit) ⟨[visit], .ok ()⟩ := by
  rintro ⟨sink, log⟩
  simp only [Emission.hand, Script.perform, Visit.deliver]
  rcases visit.hand sink with ⟨final, _ | _, logged⟩ <;> rfl

/-- Two emissions in turn go by their scripts in turn. Only answers that the first script can
end with matter for the second. -/
theorem bind {first : Emission σ α} {next : α → Emission σ β} {script : Script α}
    {scripts : α → Script β} (h : Performs first script)
    (rest : ∀ value, script.ending = .ok value → Performs (next value) (scripts value)) :
    Performs (first >>= next) (script.andThen scripts) := by
  intro state
  show Emission.outcome (EStateM.bind first next state) = _
  have performed := h state
  unfold EStateM.bind
  rw [Script.perform_andThen]
  cases run : first state with
  | error error after =>
      rw [run] at performed
      rw [← performed]
      rfl
  | ok value between =>
      rw [run] at performed
      have ends := (Script.perform_eq_ok_iff.mp performed.symm).2
      rw [← performed]
      exact rest value ends between

end Performs

end JvmCode
