import JvmCode.Proofs.Adapter.Body
import JvmCode.Proofs.Adapter.Listing
/-!
# Generated adapters

Generating an adapter can fail, but a success leaves no choice: the descriptor is that of the
handle, the sinks have taken what the body hands over, and the declared peak and the number of
arguments became the limits of the code. So all that is said about the body holds of the code
that is shown.

## Main results

* `of_emit`, `of_generate`: what a success stands for.
* `exists_generate`: an adapter is generated if its code can be assembled.
* `code_of_generate`: the code and the figures of an adapter.
* `generated_forwards`: what the shown code does when it is run.
-/

namespace JvmCode.Adapter

open Instruction

variable {target : TargetClass} {descriptor : String} {handleType : MethodType}

/-! ## Emission -/

/-- A successful emission has applied the body; what came after only set the limits. -/
theorem of_emit {state after : Emitting Sink} {declared observed : StackEffect}
    (h : emit target descriptor handleType state = .ok (declared, observed) after) :
    ∃ between, (body handleType).apply target state = .ok declared between ∧
      observed = between.sink.observed ∧ declared.maximal ≤ 65535 ∧
      (type handleType).parameterSlots ≤ 65535 ∧
      after.sink.inner.inner = { between.sink.inner.inner with
        maxStack := UInt16.ofNat declared.maximal
        maxLocals := UInt16.ofNat (type handleType).parameterSlots } := by
  obtain ⟨effect, between, applied, rest⟩ := Emission.bind_eq_ok_iff.mp h
  obtain ⟨read, _, got, rest⟩ := Emission.bind_eq_ok_iff.mp rest
  cases got
  split at rest
  · obtain ⟨_, _, thrown, _⟩ := Emission.bind_eq_ok_iff.mp rest
    cases thrown
  · next lowPeak =>
    simp only at rest
    split at rest
    · obtain ⟨_, _, thrown, _⟩ := Emission.bind_eq_ok_iff.mp rest
      cases thrown
    · next fewLocals =>
      obtain ⟨_, limited, handed, rest⟩ := Emission.bind_eq_ok_iff.mp rest
      obtain ⟨_, finished, ended, answered⟩ := Emission.bind_eq_ok_iff.mp rest
      obtain ⟨same, rfl⟩ := Emission.pure_eq_ok_iff.mp answered
      cases same
      obtain ⟨_, rfl⟩ := Emission.hand_eq_ok_iff.mp handed
      obtain ⟨_, rfl⟩ := Emission.hand_eq_ok_iff.mp ended
      exact ⟨between, applied, rfl, by omega, by omega, rfl⟩

/-- Nothing after the body fails, if its peak and the number of arguments are not too high. -/
theorem exists_emit {state between : Emitting Sink} {declared : StackEffect}
    (applied : (body handleType).apply target state = .ok declared between)
    (lowPeak : declared.maximal ≤ 65535) (fewLocals : (type handleType).parameterSlots ≤ 65535) :
    ∃ after, emit target descriptor handleType state
      = .ok (declared, between.sink.observed) after := by
  have notHigh : ¬ 65535 < declared.maximal := Nat.not_lt.mpr lowPeak
  have notMany : ¬ 65535 < (type handleType).parameterSlots := Nat.not_lt.mpr fewLocals
  simp only [emit, bind, EStateM.bind, applied, if_neg notHigh, if_neg notMany]
  exact ⟨_, rfl⟩

/-- What a success stands for: the descriptor was read, and the emission into fresh sinks
succeeded. -/
theorem of_generate {adapter : Adapter} (h : (generate target descriptor).1 = .ok adapter) :
    ∃ after, MethodType.parse descriptor = .ok adapter.handleType ∧
      emit target descriptor adapter.handleType
          ⟨.start (.start (label target adapter.handleType) .empty), #[]⟩
        = .ok (adapter.declared, adapter.observed) after ∧
      adapter.method = after.sink.inner.inner.method ∧
      adapter.pool = after.sink.inner.inner.pool := by
  rw [generate, MethodType.ofDescriptor] at h
  cases parsed : MethodType.parse descriptor with
  | error fault =>
      rw [parsed] at h
      cases h
  | ok handleType =>
      rw [parsed] at h
      simp only at h
      split at h
      · cases h
      · next after emitted =>
        cases h
        exact ⟨after, rfl, emitted, rfl, rfl⟩

/-- Where an assembler takes the code of an adapter, so do a meter and a tracer in front of it. -/
theorem exists_takes (label : String) {final : Assembler}
    (taken : Takes Assembler.empty ((code handleType).map Visit.instruction) final) :
    ∃ meter : Sink, Takes (.start (.start label .empty)) (visits handleType) meter := by
  let tracer : Tracer Assembler := .start label .empty
  let meter : Sink := .start tracer
  rw [← forwarded_visits] at taken
  have traced : ∃ after, Takes tracer ((visits handleType).map Visit.forwarded) after ∧
      after.inner = final := Takes.exists_tracer taken
  obtain ⟨traced, takenByTracer, _⟩ := traced
  have measured : ∃ after, Takes meter (visits handleType) after ∧ after.inner = traced :=
    Takes.exists_meter exists_flow_of_mem_visits takenByTracer
  obtain ⟨measured, takenByMeter, _⟩ := measured
  exact ⟨measured, takenByMeter⟩

/-- An adapter is generated if an assembler takes its code, and its arguments are not too many:
the declared peak is not too high then. -/
theorem exists_generate (target : TargetClass) {final : Assembler}
    (valid : (body handleType).isValid = true)
    (taken : Takes Assembler.empty ((code handleType).map Visit.instruction) final)
    (fewLocals : (type handleType).parameterSlots ≤ 65535) :
    ∃ adapter, (generate target handleType.descriptor).1 = .ok adapter := by
  obtain ⟨meter, measured⟩ := exists_takes (label target handleType) taken
  rw [← visits_body target valid] at measured
  let start : Emitting Sink := ⟨.start (.start (label target handleType) .empty), #[]⟩
  have applies : ∃ after, (body handleType).apply target start
      = .ok (body handleType).leafEffect after ∧ after.sink = meter :=
    Manipulation.exists_apply (body handleType) (deliverable_body target valid) measured
  obtain ⟨between, applied, _⟩ := applies
  have lowPeak : (body handleType).leafEffect.maximal ≤ 65535 := by
    have small := handleType.returnSlots_le
    rw [locals_type] at fewLocals
    rw [leafEffect_body valid]
    simp only
    omega
  have emits : ∃ after, emit target handleType.descriptor handleType
        ⟨.start (.start (label target handleType) .empty), #[]⟩
      = .ok ((body handleType).leafEffect, between.sink.observed) after :=
    exists_emit applied lowPeak fewLocals
  obtain ⟨after, emitted⟩ := emits
  rw [generate, MethodType.ofDescriptor, MethodType.parse_descriptor]
  simp only [emitted]
  exact ⟨_, rfl⟩

/-- The code of an adapter, read back against its pool, and its figures. -/
theorem code_of_generate {adapter : Adapter}
    (h : (generate target descriptor).1 = .ok adapter) :
    let handleType := adapter.handleType
    let deepest := 1 + max handleType.parameterSlots handleType.returnSlots
    decodeAll adapter.pool adapter.method.code.toList = some (code handleType) ∧
    adapter.declared = ⟨1, deepest⟩ ∧
    adapter.observed = ⟨0, max (1 + handleType.parameterSlots) handleType.returnSlots⟩ ∧
    adapter.method.maxStack.toNat = deepest ∧
    adapter.method.maxLocals.toNat = 1 + handleType.parameterSlots := by
  intro handleType deepest
  obtain ⟨after, _, emitted, isMethod, isPool⟩ := of_generate h
  obtain ⟨between, applied, isObserved, lowPeak, fewLocals, isAssembler⟩ := of_emit emitted
  obtain ⟨valid, _⟩ := Manipulation.apply_compound_eq_ok_iff.mp applied
  obtain ⟨taken, isDeclared⟩ := Manipulation.apply_takes (body handleType) applied
  rw [visits_body target valid] at taken
  rw [leafEffect_body valid] at isDeclared
  have held := taken.inner_meter.inner_tracer.holds
    (Assembler.holds_ofPool ConstantPool.consistent_empty)
  rw [Visit.instructions_map_forwarded, Visit.instructions_map_forwarded, instructions_visits,
    List.nil_append] at held
  obtain ⟨flows, known, measured⟩ := taken.observed StackEffect.sound_none
  have sameFlows : flows = codeFlows handleType :=
    List.map_injective_iff.mpr (fun _ _ => Except.ok.inj)
      (known.symm.trans (map_flow_visits handleType))
  refine ⟨?_, isDeclared, ?_, ?_, ?_⟩
  · rw [isMethod, isPool, isAssembler]
    exact held.codes.decodeAll_eq
  · rw [isObserved, measured, sameFlows]
    exact sum_codeFlows handleType
  · rw [isMethod, isAssembler]
    show (UInt16.ofNat adapter.declared.maximal).toNat = deepest
    rw [UInt16.toNat_ofNat_of_lt' (Nat.lt_succ_of_le lowPeak), isDeclared]
  · rw [isMethod, isAssembler]
    show (UInt16.ofNat (type handleType).parameterSlots).toNat = _
    rw [UInt16.toNat_ofNat_of_lt' (Nat.lt_succ_of_le fewLocals), locals_type]

/-- The instructions of an adapter, one by one. -/
theorem code_eq (handleType : MethodType) :
    code handleType
      = .load .reference 0 :: (handleType.parameters.mapIdx fun k parameter =>
          .load (.ofType parameter) (UInt16.ofNat (1 + slots (handleType.parameters.take k))))
        ++ [.invoke ⟨.virtual, .methodHandle, .invokeExact, handleType.descriptor, false⟩,
          .ret (.ofType handleType.returnType)] := by
  rw [code, argumentVariables_type, loads, List.map_cons, argumentVariables,
    List.mapIdx_eq_zipIdx_map, List.mapIdx_eq_zipIdx_map, List.map_map]
  rfl

/-- A load in an adapter is that of an argument. -/
theorem of_load_mem_code {kind : ComputationalType} {index : UInt16}
    (member : .load kind index ∈ code handleType) :
    ∃ k, ∃ inside : k < (type handleType).parameters.length,
      kind = .ofType (type handleType).parameters[k] ∧
      index = UInt16.ofNat (slots ((type handleType).parameters.take k)) := by
  obtain load | other := List.mem_append.mp member
  · obtain ⟨place, isPlace, same⟩ := List.mem_map.mp load
    cases same
    obtain ⟨k, inside, rfl⟩ := List.mem_mapIdx.mp isPlace
    rw [Nat.zero_add]
    exact ⟨k, inside, rfl, rfl⟩
  · simp at other

/-- **A generated adapter passes its arguments on.** Whatever the class and the descriptor, if an
adapter is generated, the descriptor is that of the method type of the handle, and the code that
is shown is read back, against the pool that goes with it, as these instructions: the handle is
loaded from local variable 0, then every argument from after the slots of those before it, then
the handle is called with the descriptor, and what it returned is returned. When the local
variables hold the arguments of the adapter, every load reads a whole value of its kind, inside
the declared number of local variables. The operand stack never lacks a slot, stays within the
declared maximum and is empty in the end. The effects and limits depend on the slots of the
parameters and of the returned value only. -/
theorem generated_forwards (target : TargetClass) {descriptor : String} {adapter : Adapter}
    (generated : (generate target descriptor).1 = .ok adapter) :
    let handleType := adapter.handleType
    let arguments := handleType.parameters.mapIdx fun k parameter =>
      Instruction.load (.ofType parameter)
        (UInt16.ofNat (1 + slots (handleType.parameters.take k)))
    let instructions := .load .reference 0 :: arguments
      ++ [.invoke ⟨.virtual, .methodHandle, .invokeExact, descriptor, false⟩,
        .ret (.ofType handleType.returnType)]
    let locals := argumentParts (type handleType).parameters
    let parameterSlots := handleType.parameterSlots
    let returnSlots := handleType.returnSlots
    let maxStack := adapter.method.maxStack.toNat
    let maxLocals := adapter.method.maxLocals.toNat
    MethodType.parse descriptor = .ok handleType ∧
    (∃ line ∈ listing descriptor adapter, ∃ bytes, printedCode? line = some bytes ∧
      decodeAll adapter.pool bytes = some instructions) ∧
    (∀ kind index, .load kind index ∈ instructions →
      (locals.drop index.toNat).take kind.width = kind.parts ∧
      index.toNat + kind.width ≤ maxLocals) ∧
    (∃ reached, run? [] instructions = some reached ∧
      (∀ stack ∈ reached, stack.length ≤ maxStack) ∧ reached.getLast? = some []) ∧
    adapter.declared = ⟨1, 1 + max parameterSlots returnSlots⟩ ∧
    adapter.observed = ⟨0, max (1 + parameterSlots) returnSlots⟩ ∧
    maxStack = 1 + max parameterSlots returnSlots ∧
    maxLocals = 1 + parameterSlots := by
  intro handleType arguments instructions locals parameterSlots returnSlots maxStack maxLocals
  obtain ⟨_, parsed, _⟩ := of_generate generated
  obtain ⟨decoded, isDeclared, isObserved, isMaxStack, isMaxLocals⟩ := code_of_generate generated
  have isDescriptor : descriptor = handleType.descriptor := MethodType.parse_eq_ok_iff.mp parsed
  have isCode : instructions = code handleType := by
    rw [code_eq]
    show _ :: arguments ++ [.invoke ⟨_, _, _, descriptor, _⟩, _] = _
    rw [isDescriptor]
  have nonempty : adapter.method.code.toList ≠ [] := by
    intro empty
    rw [empty, decodeAll_nil, code_eq] at decoded
    cases decoded
  obtain ⟨line, shown, read⟩ := exists_printedCode descriptor nonempty
  rw [isCode]
  refine ⟨parsed, ⟨line, shown, _, read, decoded⟩, ?loads, ?run, isDeclared, isObserved,
    isMaxStack, isMaxLocals⟩
  case loads =>
    intro kind index member
    obtain ⟨k, inside, rfl, rfl⟩ := of_load_mem_code member
    have fits := slots_take_add_width_le inside
    have all : slots (type handleType).parameters = maxLocals :=
      (locals_type handleType).trans isMaxLocals.symm
    have small : slots ((type handleType).parameters.take k) < UInt16.size := by
      have bound := adapter.method.maxLocals.toNat_lt
      simp only [UInt16.size]
      omega
    rw [UInt16.toNat_ofNat_of_lt' small]
    refine ⟨take_drop_argumentParts inside, ?_⟩
    rw [ComputationalType.ofType_width, ← all]
    exact fits
  case run =>
    obtain ⟨reached, runs, length, within, last⟩ := (runs_code handleType).run?_eq
    rw [← isMaxStack] at within
    refine ⟨reached, runs, within, ?_⟩
    cases reached with
    | nil =>
        rw [code_eq] at length
        cases length
    | cons first others =>
        rw [List.getLastD_cons, List.getLastD_eq_getLast?] at last
        rw [List.getLast?_cons, last]

/-- The adapter for a handle that takes a `long` and an `int` and answers a `long`: the `int` is
in the local variable after the two slots of the `long`. -/
theorem generated_forwards_long :
    let target : TargetClass := ⟨.object, .java7⟩
    let call : MethodCall := ⟨.virtual, .methodHandle, .invokeExact, "(JI)J", false⟩
    ∃ adapter, (generate target "(JI)J").1 = .ok adapter ∧
      (∃ line ∈ listing "(JI)J" adapter, ∃ bytes, printedCode? line = some bytes ∧
        decodeAll adapter.pool bytes = some [.load .reference 0, .load .long 1, .load .int 3,
          .invoke call, .ret (some .long)]) ∧
      adapter.declared = ⟨1, 4⟩ ∧ adapter.observed = ⟨0, 4⟩ ∧
      adapter.method.maxStack.toNat = 4 ∧ adapter.method.maxLocals.toNat = 4 := by
  intro target call
  let handleType : MethodType := ⟨[.base .long, .base .int], some (.base .long)⟩
  have encoded : ∃ pool, (Instruction.invoke call).encode ∅ = .ok [0xB6, 0, 6] pool := by
    simp [call, Instruction.encode, EncodeM.place, EncodeM.ofExcept, MethodCall.trailer,
      MethodCall.request, ConstantPool.resolve, ConstantPool.internMethodRef,
      ConstantPool.internClass, ConstantPool.internText, ConstantPool.intern, bind, EStateM.bind,
      pure, EStateM.pure, ModifiedUtf8.byteLength, ModifiedUtf8.charWidth, BinaryName.methodHandle,
      UnqualifiedName.invokeExact, ConstantPool.limit, ConstantPool.count,
      EmptyCollection.emptyCollection, ConstantPool.empty, Constant.width]
    exact ⟨rfl, rfl⟩
  obtain ⟨pool, encoded⟩ := encoded
  have isCode : code handleType = [.load .reference 0, .load .long 1, .load .int 3, .invoke call,
      .ret (some .long)] := rfl
  have taken : Takes Assembler.empty ((code handleType).map Visit.instruction)
      ⟨pool, #[0x2A, 0x1F, 0x1D, 0xB6, 0, 6, 0xAD], 0, 0⟩ := by
    rw [isCode]
    refine .cons_encode rfl (by decide) (.cons_encode rfl (by decide) ?_)
    refine .cons_encode rfl (by decide) (.cons_encode encoded (by decide) ?_)
    exact .cons_encode rfl (show 6 + 1 ≤ 65535 by decide) (.nil _)
  obtain ⟨adapter, generated⟩ := exists_generate target (by decide) taken (by decide)
  obtain ⟨parsed, shown, _, _, isDeclared, isObserved, isMaxStack, isMaxLocals⟩ :=
    generated_forwards target generated
  have isType : adapter.handleType = handleType :=
    MethodType.descriptor_injective (MethodType.parse_eq_ok_iff.mp parsed).symm
  rw [isType] at shown isDeclared isObserved isMaxStack isMaxLocals
  exact ⟨adapter, generated, shown, isDeclared, isObserved, isMaxStack, isMaxLocals⟩

end JvmCode.Adapter
