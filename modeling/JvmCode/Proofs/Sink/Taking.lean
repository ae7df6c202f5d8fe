import JvmCode.Proofs.Manipulation.StackAccounting
import JvmCode.Proofs.Sink.AssembledCode
import JvmCode.Sink.Tracer
/-!
# Visits that a sink takes

`Takes` follows a sink while it accepts one visit after the other. A tracer accepts what the
sink behind it accepts, and a meter what the sink behind it accepts among the instructions with
a known flow, so a run of a whole stack of sinks comes from one of the sink at the bottom. Both
hand calls on as instructions (`Visit.forwarded`). Each sink answers for its own part of a run:
an assembler then holds the code of the instructions, a meter has measured their effect.

## Main results

* `Takes.inner_tracer`, `Takes.inner_meter`: the same run of the sink behind.
* `Takes.exists_tracer`, `Takes.exists_meter`: the run in front of that of the sink behind.
* `Takes.holds`: what an assembler has assembled in the end.
* `Takes.observed`: what a meter has measured in the end.
* `StackMeter.sound_handAll`: what a meter measures stays sound.
-/

namespace JvmCode

variable {σ : Type} [MethodSink σ]

/-- The sink accepts all the visits in turn, and is then in the second state. -/
inductive Takes : σ → List Visit → σ → Prop
  | nil (sink : σ) : Takes sink [] sink
  | cons {sink after : σ} {visit : Visit} {visits : List Visit}
      (accepted : (visit.hand sink).outcome = .ok ())
      (rest : Takes (visit.hand sink).sink visits after) : Takes sink (visit :: visits) after

namespace Visit

/-- The instructions among visits. -/
def instructions (visits : List Visit) : List Instruction := visits.filterMap instruction?

theorem instructions_append (visits more : List Visit) :
    instructions (visits ++ more) = instructions visits ++ instructions more :=
  List.filterMap_append

theorem instructions_map_instruction (instructions : List Instruction) :
    Visit.instructions (instructions.map instruction) = instructions := by
  rw [Visit.instructions, List.filterMap_map]
  exact List.filterMap_some

/-- What a tracer or a meter hands on: calls become instructions. -/
def forwarded : Visit → Visit
  | .call delivered => .instruction (.invoke delivered)
  | visit => visit

theorem instruction?_forwarded (visit : Visit) :
    visit.forwarded.instruction? = visit.instruction? := by
  cases visit <;> rfl

theorem instructions_map_forwarded (visits : List Visit) :
    instructions (visits.map forwarded) = instructions visits := by
  rw [instructions, List.filterMap_map]
  exact congrArg (visits.filterMap ·) (funext instruction?_forwarded)

/-- The flow of the instruction that is handed over, if it is one. -/
def flow (visit : Visit) : Except EmitError SlotFlow :=
  match visit.instruction? with
  | some delivered => delivered.flow
  | none => .ok ⟨0, 0⟩

theorem map_flow_instruction (instructions : List Instruction) :
    (instructions.map instruction).map flow = instructions.map Instruction.flow := by
  rw [List.map_map]
  rfl

end Visit

/-! ## Tracers -/

/-- A tracer answers what the sink behind it answers. -/
theorem Tracer.hand_forwarded (visit : Visit) (tracer : Tracer σ) :
    (visit.hand tracer).outcome = (visit.forwarded.hand tracer.inner).outcome ∧
      (visit.hand tracer).sink.inner = (visit.forwarded.hand tracer.inner).sink := by
  cases visit <;> exact ⟨rfl, rfl⟩

namespace Takes

variable {visits : List Visit}

/-- What a tracer takes, the sink behind it takes. -/
theorem inner_tracer {tracer final : Tracer σ} (taken : Takes tracer visits final) :
    Takes tracer.inner (visits.map Visit.forwarded) final.inner := by
  induction taken with
  | nil => exact .nil _
  | @cons tracer _ visit _ accepted _ ih =>
      obtain ⟨sameOutcome, sameInner⟩ := Tracer.hand_forwarded visit tracer
      rw [sameInner] at ih
      exact .cons (sameOutcome.symm.trans accepted) ih

/-- What the sink behind a tracer takes, the tracer takes. -/
theorem exists_tracer {tracer : Tracer σ} {inner : σ}
    (taken : Takes tracer.inner (visits.map Visit.forwarded) inner) :
    ∃ final, Takes tracer visits final ∧ final.inner = inner := by
  induction visits generalizing tracer with
  | nil =>
      cases taken
      exact ⟨tracer, .nil tracer, rfl⟩
  | cons visit visits ih =>
      obtain ⟨sameOutcome, sameInner⟩ := Tracer.hand_forwarded visit tracer
      cases taken with
      | cons accepted rest =>
          rw [← sameInner] at rest
          obtain ⟨final, others, isInner⟩ := ih rest
          exact ⟨final, .cons (sameOutcome.trans accepted) others, isInner⟩

end Takes

/-! ## Meters -/

namespace StackMeter

/-- A meter refuses an instruction whose flow is not known, and the sink behind it is not
asked. -/
theorem hand_of_flow_error {visit : Visit} {error : EmitError}
    (unknown : visit.flow = .error error) (meter : StackMeter σ) :
    visit.hand meter = .refused meter error := by
  cases visit with
  | instruction delivered =>
      have isUnknown : delivered.flow = .error error := unknown
      show accept delivered meter = _
      rw [accept, isUnknown]
  | call delivered =>
      have isUnknown : (Instruction.invoke delivered).flow = .error error := unknown
      show accept (.invoke delivered) meter = _
      rw [accept, isUnknown]
  | limits _ _ => cases unknown
  | finish => cases unknown

/-- Where the flow is known, a meter answers what the sink behind it answers, and adds the flow
to what it measured if that accepts. -/
theorem hand_of_flow {visit : Visit} {flow : SlotFlow} (known : visit.flow = .ok flow)
    (meter : StackMeter σ) :
    let reply := visit.forwarded.hand meter.inner
    (visit.hand meter).outcome = reply.outcome ∧ (visit.hand meter).sink.inner = reply.sink ∧
      (reply.outcome = .ok () → meter.observed.Sound →
        (visit.hand meter).sink.observed = meter.observed.aggregate flow.effect) := by
  -- Both ways to hand an instruction over are the same for a meter.
  have delivers : ∀ instruction : Instruction, instruction.flow = .ok flow →
      let reply := MethodSink.accept instruction meter.inner
      (accept instruction meter).outcome = reply.outcome ∧
        (accept instruction meter).sink.inner = reply.sink ∧
        (reply.outcome = .ok () → meter.observed.Sound →
          (accept instruction meter).sink.observed = meter.observed.aggregate flow.effect) := by
    intro instruction isFlow reply
    have isEffect : instruction.flow.map SlotFlow.effect = .ok flow.effect := by
      rw [isFlow]
      rfl
    have sameOutcome : (accept instruction meter).outcome = reply.outcome := by
      rw [accept_of_flow isFlow]
      cases (MethodSink.accept instruction meter.inner).outcome <;> rfl
    have sameInner : (accept instruction meter).sink.inner = reply.sink := by
      rw [accept_of_flow isFlow]
      cases (MethodSink.accept instruction meter.inner).outcome <;> rfl
    refine ⟨sameOutcome, sameInner, fun accepted sound => ?_⟩
    exact observed_accept sound isEffect (sameOutcome.trans accepted)
  have nothing : flow = ⟨0, 0⟩ → meter.observed.Sound →
      meter.observed = meter.observed.aggregate flow.effect := by
    rintro rfl sound
    exact (StackEffect.aggregate_none sound).symm
  cases visit with
  | instruction delivered => exact delivers delivered known
  | call delivered => exact delivers (.invoke delivered) known
  | limits maxStack maxLocals =>
      cases known
      exact ⟨rfl, rfl, fun _ sound => nothing rfl sound⟩
  | finish =>
      cases known
      exact ⟨rfl, rfl, fun _ sound => nothing rfl sound⟩

/-- What is refused, by the meter itself or by the sink behind it, is not measured. -/
theorem observed_hand_of_refused {visit : Visit} {meter : StackMeter σ} {error : EmitError}
    (refused : (visit.hand meter).outcome = .error error) :
    (visit.hand meter).sink.observed = meter.observed := by
  have delivers : ∀ instruction : Instruction, (accept instruction meter).outcome = .error error →
      (accept instruction meter).sink.observed = meter.observed := by
    intro instruction isRefused
    cases known : instruction.flow with
    | error unknown =>
        rw [accept, known]
        rfl
    | ok flow =>
        rw [accept_of_flow known] at isRefused ⊢
        cases answer : (MethodSink.accept instruction meter.inner).outcome with
        | ok done =>
            rw [answer] at isRefused
            cases isRefused
        | error other => rfl
  cases visit with
  | instruction delivered => exact delivers delivered refused
  | call delivered => exact delivers (.invoke delivered) refused
  | limits _ _ => rfl
  | finish => rfl

/-- What has been measured after a visit, by the answer to it. -/
theorem observed_hand {visit : Visit} {flow : SlotFlow} (known : visit.flow = .ok flow)
    {meter : StackMeter σ} (sound : meter.observed.Sound) :
    (visit.hand meter).sink.observed =
      match (visit.hand meter).outcome with
      | .ok () => meter.observed.aggregate flow.effect
      | .error _ => meter.observed := by
  obtain ⟨sameOutcome, _, measures⟩ := hand_of_flow known meter
  cases answer : (visit.hand meter).outcome with
  | ok done => exact measures (sameOutcome.symm.trans answer) sound
  | error error => exact observed_hand_of_refused answer

/-- What a meter accepts has a known flow. -/
theorem exists_flow_of_accepted {visit : Visit} {meter : StackMeter σ}
    (accepted : (visit.hand meter).outcome = .ok ()) : ∃ flow, visit.flow = .ok flow := by
  cases known : visit.flow with
  | ok flow => exact ⟨flow, rfl⟩
  | error error =>
      rw [hand_of_flow_error known] at accepted
      cases accepted

/-- Whatever a visit is answered, the measured peak is not below the measured impact after it. -/
theorem sound_hand (visit : Visit) {meter : StackMeter σ} (sound : meter.observed.Sound) :
    (visit.hand meter).sink.observed.Sound := by
  cases answer : (visit.hand meter).outcome with
  | ok done =>
      obtain ⟨flow, known⟩ := exists_flow_of_accepted answer
      rw [observed_hand known sound, answer]
      exact StackEffect.sound_aggregate flow.sound_effect
  | error error =>
      rw [observed_hand_of_refused answer]
      exact sound

theorem sound_handAll (visits : List Visit) {meter : StackMeter σ}
    (sound : meter.observed.Sound) : (Visit.handAll meter visits).1.observed.Sound := by
  induction visits generalizing meter with
  | nil => exact sound
  | cons visit visits ih => exact ih (sound_hand visit sound)

end StackMeter

namespace Takes

variable {visits : List Visit}

/-- What a meter takes, the sink behind it takes. -/
theorem inner_meter {meter final : StackMeter σ} (taken : Takes meter visits final) :
    Takes meter.inner (visits.map Visit.forwarded) final.inner := by
  induction taken with
  | nil => exact .nil _
  | @cons meter _ visit _ accepted _ ih =>
      obtain ⟨flow, known⟩ := StackMeter.exists_flow_of_accepted accepted
      obtain ⟨sameOutcome, sameInner, _⟩ := StackMeter.hand_of_flow known meter
      rw [sameInner] at ih
      exact .cons (sameOutcome.symm.trans accepted) ih

/-- What the sink behind a meter takes, the meter takes, if all flows are known. -/
theorem exists_meter {meter : StackMeter σ} {inner : σ}
    (known : ∀ visit ∈ visits, ∃ flow, visit.flow = .ok flow)
    (taken : Takes meter.inner (visits.map Visit.forwarded) inner) :
    ∃ final, Takes meter visits final ∧ final.inner = inner := by
  induction visits generalizing meter with
  | nil =>
      cases taken
      exact ⟨meter, .nil meter, rfl⟩
  | cons visit visits ih =>
      obtain ⟨⟨flow, isFlow⟩, others⟩ := List.forall_mem_cons.mp known
      obtain ⟨sameOutcome, sameInner, _⟩ := StackMeter.hand_of_flow isFlow meter
      cases taken with
      | cons accepted rest =>
          rw [← sameInner] at rest
          obtain ⟨final, more, isInner⟩ := ih others rest
          exact ⟨final, .cons (sameOutcome.trans accepted) more, isInner⟩

/-- The effects of the visits are added to what a meter measured before. -/
theorem observed {meter final : StackMeter σ} (taken : Takes meter visits final)
    (sound : meter.observed.Sound) :
    ∃ flows : List SlotFlow, visits.map Visit.flow = flows.map Except.ok ∧
      final.observed = (flows.map SlotFlow.effect).foldl .aggregate meter.observed := by
  induction taken with
  | nil => exact ⟨[], rfl, rfl⟩
  | @cons meter _ visit _ accepted _ ih =>
      obtain ⟨flow, known⟩ := StackMeter.exists_flow_of_accepted accepted
      obtain ⟨sameOutcome, _, measures⟩ := StackMeter.hand_of_flow known meter
      have measured := measures (sameOutcome.symm.trans accepted) sound
      obtain ⟨flows, allKnown, total⟩ := ih (StackMeter.sound_hand visit sound)
      refine ⟨flow :: flows, ?_, ?_⟩
      · rw [List.map_cons, List.map_cons, known, allKnown]
      · rw [total, measured, List.map_cons, List.foldl_cons]

/-! ## The assembler -/

/-- An assembler takes an instruction that can be encoded and has room. -/
theorem cons_encode {assembler final : Assembler} {instruction : Instruction} {bytes : List UInt8}
    {pool : ConstantPool} (encoded : instruction.encode assembler.pool = .ok bytes pool)
    (room : assembler.code.size + bytes.length ≤ Assembler.codeLimit)
    (rest : Takes { assembler with pool := pool, code := assembler.code ++ bytes } visits final) :
    Takes assembler (.instruction instruction :: visits) final := by
  have accepts : (Visit.instruction instruction).hand assembler
      = .done { assembler with pool := pool, code := assembler.code ++ bytes } := by
    show Assembler.accept instruction assembler = _
    rw [Assembler.accept_of_encode_ok encoded, if_pos room]
  refine .cons ?_ ?_
  · rw [accepts]
    rfl
  · rw [accepts]
    exact rest

/-- The instructions are added to what an assembler held before. -/
theorem holds {assembler final : Assembler} (taken : Takes assembler visits final)
    {before : List Instruction} (h : assembler.Holds before) :
    final.Holds (before ++ Visit.instructions visits) := by
  induction taken generalizing before with
  | nil =>
      show Assembler.Holds _ (before ++ [])
      rw [List.append_nil]
      exact h
  | @cons assembler _ visit visits accepted _ ih =>
      have next := (Assembler.hand_holds h visit).2
      have one : Visit.accepted [visit] [(visit.hand assembler).outcome]
          = Visit.instructions [visit] := by
        rw [accepted]
        rfl
      rw [one] at next
      have all := ih next
      rw [List.append_assoc, ← Visit.instructions_append] at all
      exact all

end Takes

end JvmCode
