import JvmCode.OperandStack
import JvmCode.Proofs.Sink.Taking
import JvmCode.StackEffect.Words
/-!
# What meters measure

A meter keeps two numbers where a machine keeps a stack of slots. `Measures` says what the two
numbers have to do with the stacks that code goes through: the first is how far the last stack is
above the one at the start, the second how far the highest one is. The effect of one instruction
measures its step, and measures of two pieces of code are aggregated as their effects are.

A meter is handed things that it refuses, and others that the sink behind it refuses. None of these
is measured (`hand_cases`), so what it has measured in the end is what the accepted instructions
do to any stack that holds the slots they take.

## Main results

* `StackEffect.Measures.cons`: one instruction in front of measured code.
* `Instruction.exists_height`: a height from which on code runs on every stack.
* `StackMeter.hand_cases`: all that a visit can do to what was measured.
* `StackMeter.handAll_measured`: what a run of visits adds to it.
* `StackMeter.measures_accepted`: what a meter has measured since its start.
-/

namespace JvmCode

/-! ## Heights of operand stacks -/

namespace StackEffect

/-- Code that goes from the stack through those that were reached ends by the impact higher than
it started. It never gets higher than the peak allows, and somewhere it is as high as that. -/
structure Measures (effect : StackEffect) (stack : OperandStack)
    (reached : List OperandStack) : Prop where
  height_eq : ((reached.getLastD stack).length : Int) = stack.length + effect.impact
  height_le : ∀ between ∈ stack :: reached, between.length ≤ stack.length + effect.maximal
  exists_peak : ∃ between ∈ stack :: reached, between.length = stack.length + effect.maximal

namespace Measures

/-- No code leaves the stack as it was. -/
theorem nil (stack : OperandStack) : none.Measures stack [] where
  height_eq := (Int.add_zero _).symm
  height_le := by
    intro between member
    rw [List.mem_singleton.mp member]
    exact Nat.le_refl _
  exists_peak := ⟨stack, List.mem_singleton.mpr rfl, rfl⟩

/-- One more instruction in front: all heights after it are counted from the stack it leaves. -/
theorem cons {effect : StackEffect} {flow : SlotFlow} {stack next : OperandStack}
    {reached : List OperandStack} (steps : next.length + flow.popped = stack.length + flow.pushed)
    (rest : effect.Measures next reached) :
    (flow.effect.aggregate effect).Measures stack (next :: reached) := by
  obtain ⟨height_eq, height_le, between, member, isPeak⟩ := rest
  have impact : flow.effect.impact = (next.length : Int) - stack.length := by
    show (flow.pushed : Int) - flow.popped = _
    omega
  have maximal : (flow.effect.aggregate effect).maximal
      = (flow.effect.impact + effect.maximal).toNat := by
    show max flow.effect.impact.toNat (flow.effect.impact + effect.maximal).toNat = _
    omega
  rw [impact] at maximal
  refine ⟨?_, ?_, ?_⟩
  · rw [List.getLastD_cons, height_eq]
    show _ = (stack.length : Int) + (flow.effect.impact + effect.impact)
    omega
  · rw [maximal]
    intro other isReached
    rcases List.mem_cons.mp isReached with rfl | later
    · exact Nat.le_add_right _ _
    · have := height_le other later
      omega
  · rw [maximal]
    -- The peak after the instruction is the peak of all, unless the start is higher.
    by_cases low : next.length + effect.maximal ≤ stack.length
    · exact ⟨stack, List.mem_cons_self, by omega⟩
    · exact ⟨between, List.mem_cons_of_mem _ member, by omega⟩

end Measures

end StackEffect

namespace Instruction

/-- Instructions with known flows run on every stack that is high enough. -/
theorem exists_height {instructions : List Instruction}
    (known : ∀ instruction ∈ instructions, ∃ flow, instruction.flow = .ok flow) :
    ∃ height, ∀ stack : OperandStack, height ≤ stack.length →
      ∃ reached, run? stack instructions = some reached := by
  induction instructions with
  | nil => exact ⟨0, fun stack _ => ⟨[], rfl⟩⟩
  | cons instruction instructions ih =>
      obtain ⟨⟨flow, isFlow⟩, others⟩ := List.forall_mem_cons.mp known
      obtain ⟨height, runs⟩ := ih others
      refine ⟨flow.popped + height, fun stack high => ?_⟩
      have possible : (instruction.step? stack).isSome = true :=
        isSome_step?_iff.mpr ⟨flow, isFlow, by omega⟩
      obtain ⟨next, steps⟩ := Option.isSome_iff_exists.mp possible
      have change := length_step? isFlow steps
      obtain ⟨reached, rest⟩ := runs next (by omega)
      refine ⟨next :: reached, ?_⟩
      rw [run?, steps]
      simp only [rest, Option.map_some]

/-- The effect is what the instructions do to every stack they run on. -/
structure Measured (instructions : List Instruction) (effect : StackEffect) : Prop where
  known : ∀ instruction ∈ instructions, ∃ flow, instruction.flow = .ok flow
  measures : ∀ stack reached, run? stack instructions = some reached →
    effect.Measures stack reached

namespace Measured

theorem nil : Measured [] .none where
  known _ none := absurd none List.not_mem_nil
  measures stack reached runs := by
    cases runs
    exact .nil stack

theorem cons {instruction : Instruction} {instructions : List Instruction} {flow : SlotFlow}
    {effect : StackEffect} (isFlow : instruction.flow = .ok flow)
    (rest : Measured instructions effect) :
    Measured (instruction :: instructions) (flow.effect.aggregate effect) where
  known := List.forall_mem_cons.mpr ⟨⟨flow, isFlow⟩, rest.known⟩
  measures stack reached runs := by
    rw [run?] at runs
    cases steps : instruction.step? stack with
    | none =>
        rw [steps] at runs
        cases runs
    | some next =>
        rw [steps] at runs
        obtain ⟨later, others, rfl⟩ := Option.map_eq_some_iff.mp runs
        exact .cons (length_step? isFlow steps) (rest.measures next later others)

end Measured

end Instruction

/-! ## Meters -/

namespace StackMeter

variable {σ : Type} [MethodSink σ]

/-- A visit adds nothing to what was measured, or it is an instruction that was accepted and adds
its effect. -/
theorem hand_cases (visit : Visit) {meter : StackMeter σ} (sound : meter.observed.Sound) :
    let accepted := Visit.accepted [visit] [(visit.hand meter).outcome]
    let after := (visit.hand meter).sink.observed
    (accepted = [] ∧ after = meter.observed) ∨
      ∃ instruction flow, accepted = [instruction] ∧ instruction.flow = .ok flow ∧
        after = meter.observed.aggregate flow.effect := by
  intro accepted after
  cases answer : (visit.hand meter).outcome with
  | error error =>
      refine .inl ⟨?_, observed_hand_of_refused answer⟩
      show Visit.accepted [visit] [(visit.hand meter).outcome] = []
      rw [answer]
      rfl
  | ok done =>
      obtain ⟨flow, isFlow⟩ := exists_flow_of_accepted answer
      have measured : after = meter.observed.aggregate flow.effect := by
        show (visit.hand meter).sink.observed = _
        rw [observed_hand isFlow sound, answer]
      have isAccepted : accepted = visit.instruction?.toList := by
        show Visit.accepted [visit] [(visit.hand meter).outcome] = _
        rw [answer, Visit.accepted]
        cases visit <;> rfl
      cases isInstruction : visit.instruction? with
      | none =>
          rw [Visit.flow, isInstruction] at isFlow
          cases isFlow
          rw [isInstruction] at isAccepted
          exact .inl ⟨isAccepted, measured.trans (StackEffect.aggregate_none sound)⟩
      | some instruction =>
          rw [Visit.flow, isInstruction] at isFlow
          rw [isInstruction] at isAccepted
          exact .inr ⟨instruction, flow, isAccepted, isFlow, measured⟩

/-- What a run of visits adds to what was measured before is the effect of the instructions that
were accepted. -/
theorem handAll_measured (visits : List Visit) {meter : StackMeter σ}
    (sound : meter.observed.Sound) :
    let run := Visit.handAll meter visits
    ∃ effect, Instruction.Measured (Visit.accepted visits run.2) effect ∧
      run.1.observed = meter.observed.aggregate effect := by
  induction visits generalizing meter with
  | nil => exact ⟨.none, .nil, (StackEffect.aggregate_none sound).symm⟩
  | cons visit visits ih =>
      intro run
      have first : Visit.accepted (visit :: visits) run.2
          = Visit.accepted [visit] [(visit.hand meter).outcome]
            ++ Visit.accepted visits (Visit.handAll (visit.hand meter).sink visits).2 :=
        Visit.accepted_cons ..
      obtain ⟨effect, measured, total⟩ := ih (sound_hand visit sound)
      rcases hand_cases visit sound with
        ⟨nothing, same⟩ | ⟨instruction, flow, one, isFlow, added⟩
      · rw [nothing, List.nil_append] at first
        rw [same] at total
        exact ⟨effect, first ▸ measured, total⟩
      · rw [one, List.singleton_append] at first
        rw [added, StackEffect.aggregate_assoc] at total
        exact ⟨flow.effect.aggregate effect, first ▸ .cons isFlow measured, total⟩

/-- **A meter measures what was accepted.** Take any sink behind a meter at its start, and any
visits, of which the meter or the sink may refuse some. The instructions that were accepted run on
every stack from some height on. Whatever stack they run on, its height changes by the measured
impact, and it never rises by more than the measured peak, which it reaches. The peak is not below
the impact, so a peak that is a signed word makes an effect with it in machine words as well. A
visit that is refused changes nothing that was measured. A call whose descriptor cannot be read is
refused as such, and the sink behind the meter is not asked. -/
theorem measures_accepted (inner : σ) (visits : List Visit) :
    let run := Visit.handAll (start inner) visits
    let accepted := Visit.accepted visits run.2
    let observed := run.1.observed
    (∃ height, ∀ stack : OperandStack, height ≤ stack.length →
      ∃ reached, Instruction.run? stack accepted = some reached) ∧
    (∀ stack reached, Instruction.run? stack accepted = some reached →
      observed.Measures stack reached) ∧
    observed.Sound ∧
    (observed.maximal < 0x8000000000000000 →
      StackEffect.ofWords observed.impact observed.maximal = .ok observed) ∧
    (∀ (visit : Visit) (meter : StackMeter σ) (error : EmitError),
      (visit.hand meter).outcome = .error error →
        (visit.hand meter).sink.observed = meter.observed) ∧
    (∀ (visit : Visit) (call : MethodCall) (fault : DescriptorFault) (meter : StackMeter σ),
      visit.instruction? = some (.invoke call) → MethodType.parse call.descriptor = .error fault →
        visit.hand meter = .refused meter (.badDescriptor call.descriptor)) := by
  intro run accepted observed
  have fresh : (start inner).observed = .none := rfl
  have soundStart : (start inner).observed.Sound := StackEffect.sound_none
  have sound : observed.Sound := sound_handAll visits soundStart
  obtain ⟨effect, measured, total⟩ := handAll_measured visits soundStart
  have whole : observed = effect := by
    show run.1.observed = effect
    rw [total, fresh, StackEffect.none_aggregate]
  refine ⟨Instruction.exists_height measured.known, ?_, sound, StackEffect.ofWords_of_sound sound,
    fun visit meter error refused => observed_hand_of_refused refused, ?_⟩
  · rw [whole]
    exact measured.measures
  · intro visit call fault meter isCall unreadable
    have unknown : visit.flow = .error (.badDescriptor call.descriptor) := by
      rw [Visit.flow, isCall]
      exact Instruction.flow_eq_error_iff.mpr ⟨call, fault, rfl, unreadable, rfl⟩
    exact hand_of_flow_error unknown meter

/-- A sink that counts what it is asked and refuses every second instruction is behind the meter.
It is not asked about the call that cannot be read. -/
theorem measures_accepted_refusals :
    let _ : MethodSink Nat := {
      accept := fun _ asked =>
        if asked % 2 = 0 then .done (asked + 1)
        else .refused (asked + 1) .illegalManipulation }
    let call : MethodCall := ⟨.static, .object, .invokeExact, "(Q)V", false⟩
    let visits : List Visit := [.instruction (.pop .two), .instruction .swap, .call call, .finish,
      .instruction (.lconst 1), .instruction .nop, .instruction (.dup .two .double)]
    let run := Visit.handAll (start 0) visits
    let accepted := [.pop .two, .lconst 1, .dup .two .double]
    let stack : OperandStack := List.replicate 4 ⟨.int, 0⟩
    Visit.accepted visits run.2 = accepted ∧ run.1.inner = 5 ∧
      ∃ reached, Instruction.run? stack accepted = some reached ∧
        (⟨2, 2⟩ : StackEffect).Measures stack reached := by
  intro picky call visits run accepted stack
  have isAccepted : Visit.accepted visits run.2 = accepted := by cbv
  have isObserved : run.1.observed = ⟨2, 2⟩ := by cbv
  have isInner : run.1.inner = 5 := by cbv
  obtain ⟨_, measures, _⟩ := measures_accepted 0 visits
  have runs : ∃ reached, Instruction.run? stack accepted = some reached := ⟨_, rfl⟩
  obtain ⟨reached, runs⟩ := runs
  refine ⟨isAccepted, isInner, reached, runs, ?_⟩
  rw [← isObserved]
  exact measures stack reached (isAccepted ▸ runs)

end StackMeter

end JvmCode
