import JvmCode.Proofs.Adapter.Generated
import JvmCode.Proofs.Adapter.Reports
import JvmCode.Proofs.Manipulation.LoadableArguments
import JvmCode.Proofs.Sink.Acceptance
/-!
# When an adapter is generated

Three limits meet in an adapter. Its arguments must start in local variables that an operand can
name, its code must fit into the code of a method, and the descriptor must fit into an entry of a
constant pool. They are looked at in this order: the first before anything is emitted, the second
with every instruction, the third with the call that follows the loads.

Two more limits are those of the declared stack and of the declared local variables, and neither is
ever found to be exceeded. For a load of a local variable past 255 takes four bytes and loads at
most two slots, so code that fits has less than half as many slots as bytes, but for some slots at
the start (`two_mul_slots_le_loadsLength`).

## Main results

* `Instruction.two_mul_slots_le_loadsLength`: how long loads are at least.
* `Adapter.deliver_code_cases`: what an assembler makes of the code of an adapter.
* `Adapter.deliver_visits`: what it makes of it behind a tracer and a meter.
* `Adapter.generates_or_blames`: when an adapter is generated, and what is to blame if it is not.
-/

namespace JvmCode

open ConstantPool

/-! ## The length of loads -/

namespace Instruction

/-- How many bytes the loads of arguments take when the first one starts in this local variable. -/
def loadsLength (first : Nat) : List FieldType → Nat
  | [] => 0
  | type :: types => accessLength first + loadsLength (first + type.width) types

/-- Past the local variables that one byte can name, a slot costs two bytes. The 257 is where the
first argument can start that does not start in one of those. -/
theorem two_mul_slots_le_loadsLength (first : Nat) (types : List FieldType) :
    2 * (first + slots types) ≤ loadsLength first types + 2 * max first 257 := by
  induction types generalizing first with
  | nil =>
      rw [slots_nil, loadsLength]
      omega
  | cons type types ih =>
      have narrow : type.width ≤ 2 := type.width_le
      have rest := ih (first + type.width)
      rw [slots_cons, loadsLength]
      unfold accessLength
      split
      · omega
      · split <;> omega

/-- Loads are settled in every pool, and take as many bytes as they should, if the local variables
can be named. -/
theorem exists_chunks_loads (pool : ConstantPool) {first : Nat} {types : List FieldType}
    (starts : StartsAddressable first types) :
    ∃ chunks, List.Forall₂ (Settled pool) (loads (argumentVariables first types)) chunks ∧
      chunks.flatten.length = loadsLength first types := by
  induction types generalizing first with
  | nil => exact ⟨[], .nil, rfl⟩
  | cons type types ih =>
      obtain ⟨inTime, later⟩ := startsAddressable_cons_iff.mp starts
      obtain ⟨chunks, settled, counted⟩ := ih later
      have index : (UInt16.ofNat first).toNat = first :=
        UInt16.toNat_ofNat_of_lt' (Nat.lt_succ_of_le inTime)
      have load : ∀ kind : ComputationalType, Settled pool (.load kind (UInt16.ofNat first))
          (localBytes (0x1A + 4 * kind.ordinal) (0x15 + kind.ordinal) (UInt16.ofNat first)) :=
        fun _ _ _ _ => rfl
      rw [argumentVariables_cons, loads, List.map_cons]
      refine ⟨_, .cons (load _) settled, ?_⟩
      rw [List.flatten_cons, List.length_append, length_localBytes, index, counted, loadsLength]

end Instruction

open Instruction

/-! ## Sinks in front of an assembler -/

/-- A delivery goes as it goes at a sink behind, if each visit does. -/
theorem Visit.deliver_behind {σ τ : Type} [MethodSink σ] [MethodSink τ] (behind : τ → σ)
    (handed : Visit → Visit) {visits : List Visit}
    (follows : ∀ visit ∈ visits, ∀ sink : τ,
      (visit.hand sink).outcome = ((handed visit).hand (behind sink)).outcome ∧
        behind (visit.hand sink).sink = ((handed visit).hand (behind sink)).sink) (sink : τ) :
    (deliver sink visits).2 = (deliver (behind sink) (visits.map handed)).2 ∧
      behind (deliver sink visits).1 = (deliver (behind sink) (visits.map handed)).1 := by
  induction visits generalizing sink with
  | nil => exact ⟨rfl, rfl⟩
  | cons visit visits ih =>
      obtain ⟨own, others⟩ := List.forall_mem_cons.mp follows
      obtain ⟨sameOutcome, sameSink⟩ := own sink
      rw [List.map_cons]
      cases answer : (visit.hand sink).outcome with
      | ok done =>
          rw [deliver_of_accepted answer, deliver_of_accepted (sameOutcome.symm.trans answer),
            ← sameSink]
          exact ih others _
      | error error =>
          rw [deliver_of_refused answer, deliver_of_refused (sameOutcome.symm.trans answer)]
          exact ⟨rfl, sameSink⟩

namespace Adapter

variable {target : TargetClass} {descriptor : String} {handleType : MethodType}

/-! ## The code of an adapter -/

/-- How many bytes the code of an adapter takes: the loads of its arguments, a call and a return. -/
def codeLength (handleType : MethodType) : Nat :=
  loadsLength 0 (type handleType).parameters + 3 + 1

/-- The loads of the handle, of the `long` and of the `int` have a byte each. -/
example : codeLength ⟨[.base .long, .base .int], some (.base .long)⟩ = 7 := by decide

/-- How many bytes the descriptor takes in a constant pool. -/
def textLength (handleType : MethodType) : Nat :=
  (ModifiedUtf8.encode handleType.descriptor).length

/-- Code that fits has few slots. -/
theorem slots_le_of_codeLength (fits : codeLength handleType ≤ 65535) :
    1 + handleType.parameterSlots ≤ 33022 := by
  have long := two_mul_slots_le_loadsLength 0 (type handleType).parameters
  have slots : slots (type handleType).parameters = 1 + handleType.parameterSlots :=
    locals_type handleType
  rw [codeLength] at fits
  omega

/-- The arguments of code that fits all start in time. -/
theorem startsAddressable_of_codeLength (fits : codeLength handleType ≤ 65535) :
    StartsAddressable 1 handleType.parameters := by
  intro k _
  have few := slots_le_of_codeLength fits
  have before := slots_take_le handleType.parameters k
  rw [MethodType.parameterSlots] at few
  omega

theorem isValid_body_iff :
    (body handleType).isValid = true ↔ StartsAddressable 1 handleType.parameters := by
  have arguments : (Manipulation.allArguments handleType 1).isValid = true ↔
      StartsAddressable 1 handleType.parameters := Manipulation.allValid_argumentLoads_iff
  rw [body, Manipulation.isValid_compound, ← arguments]
  constructor
  · exact fun all => all _ (by simp)
  · intro loadable part member
    simp only [List.mem_cons, List.not_mem_nil, or_false] at member
    rcases member with rfl | rfl | rfl | rfl
    · rfl
    · exact loadable
    · rfl
    · rfl

theorem startsAddressable_type (starts : StartsAddressable 1 handleType.parameters) :
    StartsAddressable 0 (type handleType).parameters :=
  startsAddressable_cons_iff.mpr ⟨Nat.zero_le _, starts⟩

/-- The texts of the call of a handle. -/
theorem mem_parts_call {text : String} :
    .utf8 text ∈ (HandleInvocation.mk handleType).call.request.parts ↔
      text = "java/lang/invoke/MethodHandle" ∨ text = "invokeExact" ∨
        text = handleType.descriptor := by
  simp [MethodCall.request, PoolRequest.parts, HandleInvocation.call, BinaryName.methodHandle,
    UnqualifiedName.invokeExact]

/-- There is room for everything missing in an empty pool. -/
theorem contentsWidth_missing_call (handleType : MethodType) :
    contentsWidth (missing ∅ (HandleInvocation.mk handleType).call.request) ≤ 6 := by
  have grown := Built.empty.grow_parts (HandleInvocation.mk handleType).call.request
  rw [List.nil_append] at grown
  rw [← grown]
  exact contentsWidth_grow_le [] _

/-- An empty pool takes the call of a handle just if the descriptor is not too long. -/
theorem resolve_call_ok_iff :
    (∃ place after, resolve (HandleInvocation.mk handleType).call.request ∅ = .ok place after) ↔
      textLength handleType ≤ 65535 := by
  have room := contentsWidth_missing_call handleType
  have count : (∅ : ConstantPool).count.toNat = 1 := rfl
  have owner : (ModifiedUtf8.encode "java/lang/invoke/MethodHandle").length = 29 := by cbv
  have name : (ModifiedUtf8.encode "invokeExact").length = 11 := by cbv
  rw [Built.empty.resolve_ok_iff, count]
  constructor
  · rintro ⟨short, _⟩
    exact short _ (mem_parts_call.mpr (.inr (.inr rfl)))
  · intro short
    refine ⟨fun text part => ?_, by omega⟩
    rcases mem_parts_call.mp part with rfl | rfl | rfl
    · omega
    · omega
    · exact short

/-- An empty pool refuses the call of a handle for the length of the descriptor only. -/
theorem resolve_call_error {fault : PoolFault} {after : ConstantPool}
    (run : resolve (HandleInvocation.mk handleType).call.request ∅ = .error fault after) :
    65535 < textLength handleType ∧ fault = .textTooLong (textLength handleType) := by
  have long : 65535 < textLength handleType := by
    by_contra short
    obtain ⟨place, other, answered⟩ := resolve_call_ok_iff.mpr (Nat.not_lt.mp short)
    rw [run] at answered
    cases answered
  refine ⟨long, ?_⟩
  obtain ⟨added, refused, rest, missing, part, _, built, why⟩ := Built.empty.resolve_error run
  have room := contentsWidth_missing_call handleType
  cases why with
  | @tooLong text tooLong =>
      rw [ModifiedUtf8.byteLength_eq, limit] at tooLong
      rw [ModifiedUtf8.byteLength_eq]
      rcases mem_parts_call.mp part with rfl | rfl | rfl
      · exact absurd tooLong (by cbv)
      · exact absurd tooLong (by cbv)
      · rfl
  | full denotes noRoom =>
      rw [missing, contentsWidth_append, contentsWidth] at room
      rw [built.count_eq, List.nil_append, denotes.width_eq, limit] at noRoom
      omega

/-! ## What an assembler makes of it -/

/-- An instruction that is encoded is written, and the delivery goes on if it has room. -/
theorem deliver_of_placed {assembler : Assembler} {instruction : Instruction} {place : PoolIndex}
    {after : ConstantPool} (placed : Placed assembler.pool instruction place after)
    (counts : instruction.CountsArguments) (rest : List Visit) :
    ∃ bytes, bytes.length = instruction.length place ∧
      Visit.deliver assembler (.instruction instruction :: rest) =
        if assembler.code.size + instruction.length place ≤ Assembler.codeLimit then
          Visit.deliver (Assembler.write { assembler with pool := after } bytes) rest
        else
          ({ assembler with pool := after },
            .error (.codeTooLong (assembler.code.size + instruction.length place))) := by
  obtain ⟨bytes, counted, reply⟩ := Assembler.accept_of_placed placed counts
  have handed : (Visit.instruction instruction).hand assembler = _ := reply
  refine ⟨bytes, counted, ?_⟩
  by_cases room : assembler.code.size + instruction.length place ≤ Assembler.codeLimit
  · rw [if_pos room] at handed ⊢
    rw [Visit.deliver_of_accepted (congrArg Reply.outcome handed), handed]
    rfl
  · rw [if_neg room] at handed ⊢
    rw [Visit.deliver_of_refused (congrArg Reply.outcome handed), handed]
    rfl

/-- What becomes of the call and the return behind loads that were written. -/
theorem deliver_call_cases (handleType : MethodType) (bytes : List UInt8) :
    let delivered := Visit.deliver (Assembler.empty.write bytes)
      [.instruction (.invoke (HandleInvocation.mk handleType).call),
        .instruction (.ret (.ofType handleType.returnType))]
    (delivered.2 = .ok () ∧ textLength handleType ≤ 65535 ∧ bytes.length + 3 + 1 ≤ 65535 ∧
      delivered.1.code.size = bytes.length + 3 + 1) ∨
    (∃ length, delivered.2 = .error (.codeTooLong length) ∧ 65535 < length ∧
      length ≤ bytes.length + 3 + 1) ∨
    (delivered.2 = .error (.pool (.textTooLong (textLength handleType))) ∧
      65535 < textLength handleType) := by
  intro delivered
  let start := Assembler.empty.write bytes
  let call : Instruction := .invoke (HandleInvocation.mk handleType).call
  let last : Instruction := .ret (.ofType handleType.returnType)
  have size : start.code.size = bytes.length := by
    rw [Assembler.size_write]
    exact Nat.zero_add _
  have notInterface : call.CountsArguments := fun isInterface => by cases isInterface
  -- the pool is asked before the length is looked at, so its refusal comes first
  cases run : resolve (HandleInvocation.mk handleType).call.request ∅ with
  | error fault after =>
      obtain ⟨long, rfl⟩ := resolve_call_error run
      have asks : call.request? = some (HandleInvocation.mk handleType).call.request := rfl
      have refused : call.encode start.pool = .error (.pool _) after := encode_of_refused asks run
      have answer : ((Visit.instruction call).hand start).outcome
          = .error (.pool (.textTooLong (textLength handleType))) :=
        congrArg Reply.outcome (Assembler.accept_of_encode_error refused)
      exact .inr (.inr ⟨congrArg Prod.snd (Visit.deliver_of_refused answer), long⟩)
  | ok place after =>
      have short : textLength handleType ≤ 65535 := resolve_call_ok_iff.mp ⟨place, after, run⟩
      have three : call.length place = 3 := rfl
      have one : last.length place = 1 := rfl
      obtain ⟨called, isCalled, first⟩ := deliver_of_placed
        (show Placed start.pool call place after from run) notInterface [.instruction last]
      let between := Assembler.write { start with pool := after } called
      have lastPlaced : Placed between.pool last place between.pool := rfl
      obtain ⟨returned, isReturned, second⟩ := deliver_of_placed lastPlaced trivial []
      have grown : between.code.size = bytes.length + 3 := by
        rw [Assembler.size_write, isCalled, three]
        exact congrArg (· + 3) size
      rw [size, three] at first
      rw [grown, one] at second
      have isDelivered : delivered = _ := first
      rw [isDelivered, second]
      by_cases room : bytes.length + 3 ≤ 65535
      · rw [if_pos (show _ ≤ Assembler.codeLimit from room)]
        by_cases lastRoom : bytes.length + 3 + 1 ≤ 65535
        · rw [if_pos (show _ ≤ Assembler.codeLimit from lastRoom)]
          refine .inl ⟨rfl, short, lastRoom, ?_⟩
          show (Assembler.write _ returned).code.size = _
          rw [Assembler.size_write, isReturned, one]
          exact congrArg (· + 1) grown
        · rw [if_neg (show ¬ _ ≤ Assembler.codeLimit from lastRoom)]
          exact .inr (.inl ⟨_, rfl, Nat.lt_of_not_le lastRoom, Nat.le_refl _⟩)
      · rw [if_neg (show ¬ _ ≤ Assembler.codeLimit from room)]
        exact .inr (.inl ⟨_, rfl, Nat.lt_of_not_le room, Nat.le_succ _⟩)

/-- An assembler takes all of the code of an adapter, or runs out of room for an instruction, or
cannot enter the descriptor into its pool. -/
theorem deliver_code_cases (starts : StartsAddressable 1 handleType.parameters) :
    let delivered := Visit.deliver Assembler.empty ((code handleType).map Visit.instruction)
    (delivered.2 = .ok () ∧ textLength handleType ≤ 65535 ∧ codeLength handleType ≤ 65535 ∧
      delivered.1.code.size = codeLength handleType) ∨
    (∃ length, delivered.2 = .error (.codeTooLong length) ∧ 65535 < length ∧
      length ≤ codeLength handleType) ∨
    (delivered.2 = .error (.pool (.textTooLong (textLength handleType))) ∧
      65535 < textLength handleType) := by
  intro delivered
  obtain ⟨chunks, settled, counted⟩ := exists_chunks_loads ∅ (startsAddressable_type starts)
  have cut : delivered = Visit.deliver Assembler.empty
      ((loads (argumentVariables 0 (type handleType).parameters)).map Visit.instruction
        ++ [.instruction (.invoke (HandleInvocation.mk handleType).call),
          .instruction (.ret (.ofType handleType.returnType))]) := by
    show Visit.deliver _ ((code handleType).map Visit.instruction) = _
    rw [code, List.map_append]
    rfl
  rw [cut, Visit.deliver_append]
  have noCode : Assembler.empty.code.size = 0 := rfl
  have consistent : Assembler.empty.pool.Consistent := consistent_empty
  have nothing : (∅ : ConstantPool).Extends Assembler.empty.pool := .refl ∅
  by_cases room : chunks.flatten.length ≤ 65535
  · have loaded := Assembler.deliver_of_fits settled consistent nothing
      (by rw [noCode, Nat.zero_add]; exact room)
    rw [loaded]
    have rest := deliver_call_cases handleType chunks.flatten
    rw [counted] at rest
    exact rest
  · obtain ⟨n, _, _, full, stopped⟩ := Assembler.deliver_of_overflow settled consistent nothing
      (Nat.zero_le _) (by rw [noCode, Nat.zero_add]; exact Nat.lt_of_not_le room)
    have inside := (List.take_prefix (n + 1) chunks).flatten.length_le
    rw [noCode, Nat.zero_add] at full stopped
    rw [stopped]
    refine .inr (.inl ⟨_, rfl, full, ?_⟩)
    rw [codeLength, ← counted]
    omega

/-! ## Behind a tracer and a meter -/

/-- The sinks of an adapter answer to its body what an assembler answers to its code. -/
theorem deliver_visits (handleType : MethodType) (sink : Sink) :
    let delivered := Visit.deliver sink (visits handleType)
    let behind := Visit.deliver sink.inner.inner ((code handleType).map Visit.instruction)
    delivered.2 = behind.2 ∧ delivered.1.inner.inner = behind.1 := by
  obtain ⟨metered, meter⟩ := Visit.deliver_behind (StackMeter.inner (σ := Tracer Assembler))
    Visit.forwarded (fun visit (member : visit ∈ visits handleType) sink => by
      obtain ⟨flow, known⟩ := exists_flow_of_mem_visits visit member
      obtain ⟨sameOutcome, sameInner, _⟩ := StackMeter.hand_of_flow known sink
      exact ⟨sameOutcome, sameInner⟩) sink
  obtain ⟨traced, tracer⟩ := Visit.deliver_behind (Tracer.inner (σ := Assembler))
    Visit.forwarded (fun visit _ sink => Tracer.hand_forwarded visit sink) sink.inner
  rw [forwarded_visits] at traced tracer
  exact ⟨metered.trans traced, (congrArg Tracer.inner meter).trans tracer⟩

/-- Applying the body of an adapter goes as it goes for the code behind the sinks. -/
theorem outcome_apply_body (target : TargetClass)
    (starts : StartsAddressable 1 handleType.parameters) (state : Emitting Sink) :
    let outcome := Emission.outcome ((body handleType).apply target state)
    let behind := Visit.deliver state.sink.inner.inner ((code handleType).map Visit.instruction)
    outcome.2 = behind.2.map (fun _ => (body handleType).leafEffect) ∧
      outcome.1.inner.inner = behind.1 := by
  intro outcome behind
  have valid := isValid_body_iff.mpr starts
  have performed : outcome = _ := Manipulation.performs_apply target (body handleType) state
  rw [Manipulation.script_of_deliverable (deliverable_body target valid),
    visits_body target valid, Script.perform] at performed
  obtain ⟨sameAnswer, sameSink⟩ := deliver_visits handleType state.sink
  rcases run : Visit.deliver state.sink (visits handleType) with ⟨final, _ | _⟩
  · rw [run] at performed sameAnswer sameSink
    rw [performed]
    exact ⟨by rw [← sameAnswer]; rfl, sameSink⟩
  · rw [run] at performed sameAnswer sameSink
    rw [performed]
    exact ⟨by rw [← sameAnswer]; rfl, sameSink⟩

/-- A body that was applied has few slots, on the stack and in local variables. -/
theorem bounds_of_apply {declared : StackEffect} {after : Emitting Sink}
    (applied : (body handleType).apply target (fresh target handleType) = .ok declared after) :
    declared.maximal ≤ 65535 ∧ 1 + handleType.parameterSlots ≤ 65535 := by
  obtain ⟨valid, _⟩ := Manipulation.apply_compound_eq_ok_iff.mp applied
  obtain ⟨_, isDeclared⟩ := Manipulation.apply_takes (body handleType) applied
  have starts := isValid_body_iff.mp valid
  obtain ⟨answer, _⟩ := outcome_apply_body target starts (fresh target handleType)
  rw [applied] at answer
  have fits : codeLength handleType ≤ 65535 := by
    rcases deliver_code_cases starts with
      ⟨_, _, fits, _⟩ | ⟨length, refused, _⟩ | ⟨refused, _⟩
    · exact fits
    · rw [show (fresh target handleType).sink.inner.inner = Assembler.empty from rfl,
        refused] at answer
      cases answer
    · rw [show (fresh target handleType).sink.inner.inner = Assembler.empty from rfl,
        refused] at answer
      cases answer
  have few := slots_le_of_codeLength fits
  have returned := handleType.returnSlots_le
  rw [isDeclared, leafEffect_body valid]
  simp only
  omega

/-! ## Generating -/

/-- An adapter whose body fails is not generated, for the same reason. -/
theorem generate_of_outcome_error (parsed : MethodType.parse descriptor = .ok handleType)
    {error : EmitError}
    (failed : (Emission.outcome ((body handleType).apply target (fresh target handleType))).2
      = .error error) : (generate target descriptor).1 = .error error := by
  have isType : MethodType.ofDescriptor descriptor = .ok handleType := by
    rw [MethodType.ofDescriptor, parsed]
  rw [generate_eq_collect target isType]
  cases run : (body handleType).apply target (fresh target handleType) with
  | ok declared after =>
      rw [run] at failed
      cases failed
  | error other after =>
      rw [run] at failed
      cases failed
      have emitted : emit target descriptor handleType (fresh target handleType)
          = .error error after := by
        simp only [emit, bind, EStateM.bind, run]
      rw [emitted]
      rfl

/-- An adapter whose body is applied is generated, with the code that the body has emitted. -/
theorem generate_of_apply (parsed : MethodType.parse descriptor = .ok handleType)
    {declared : StackEffect} {between : Emitting Sink}
    (applied : (body handleType).apply target (fresh target handleType) = .ok declared between) :
    ∃ adapter, (generate target descriptor).1 = .ok adapter ∧ adapter.handleType = handleType ∧
      adapter.method.code = between.sink.inner.inner.code := by
  have isType : MethodType.ofDescriptor descriptor = .ok handleType := by
    rw [MethodType.ofDescriptor, parsed]
  obtain ⟨lowPeak, fewLocals⟩ := bounds_of_apply applied
  rw [← locals_type] at fewLocals
  obtain ⟨after, emitted⟩ : ∃ after, emit target descriptor handleType (fresh target handleType)
      = .ok (declared, between.sink.observed) after := exists_emit applied lowPeak fewLocals
  obtain ⟨other, alsoApplied, _, _, _, isAssembler⟩ := of_emit emitted
  rw [applied] at alsoApplied
  cases alsoApplied
  rw [generate_eq_collect target isType, emitted]
  refine ⟨_, rfl, rfl, ?_⟩
  show after.sink.inner.inner.code = _
  rw [isAssembler]

/-- How it ends for a descriptor, by what is to blame. -/
theorem generate_cases (target : TargetClass) (descriptor : String) :
    let answer := (generate target descriptor).1
    ((∀ handleType, MethodType.parse descriptor ≠ .ok handleType) ∧
      answer = .error (.badDescriptor descriptor)) ∨
    ∃ handleType, MethodType.parse descriptor = .ok handleType ∧
      ((¬ StartsAddressable 1 handleType.parameters ∧ answer = .error .illegalManipulation) ∨
      StartsAddressable 1 handleType.parameters ∧
        ((∃ adapter, answer = .ok adapter ∧ textLength handleType ≤ 65535 ∧
          codeLength handleType ≤ 65535 ∧ adapter.handleType = handleType ∧
          adapter.method.code.size = codeLength handleType) ∨
        (∃ length, answer = .error (.codeTooLong length) ∧ 65535 < length ∧
          length ≤ codeLength handleType) ∨
        (answer = .error (.pool (.textTooLong (textLength handleType))) ∧
          65535 < textLength handleType))) := by
  intro answer
  cases parsed : MethodType.parse descriptor with
  | error fault =>
      refine .inl ⟨fun _ same => (by cases same), ?_⟩
      show (generate target descriptor).1 = _
      rw [generate, MethodType.ofDescriptor, parsed]
  | ok handleType =>
      refine .inr ⟨handleType, rfl, ?_⟩
      by_cases starts : StartsAddressable 1 handleType.parameters
      · obtain ⟨sameAnswer, sameSink⟩ :=
          outcome_apply_body target starts (fresh target handleType)
        refine .inr ⟨starts, ?_⟩
        have behind : (fresh target handleType).sink.inner.inner = Assembler.empty := rfl
        rw [behind] at sameAnswer sameSink
        rcases deliver_code_cases starts with
          ⟨taken, short, fits, size⟩ | ⟨length, refused, long, inside⟩ | ⟨refused, long⟩
        · rw [taken] at sameAnswer
          obtain ⟨between, applied, isSink⟩ :=
            Emission.outcome_eq_ok_iff.mp (Prod.ext rfl sameAnswer)
          obtain ⟨adapter, generated, isHandle, isCode⟩ := generate_of_apply parsed applied
          rw [isSink, sameSink] at isCode
          exact .inl ⟨adapter, generated, short, fits, isHandle, by rw [isCode, size]⟩
        · rw [refused] at sameAnswer
          exact .inr (.inl ⟨length, generate_of_outcome_error parsed sameAnswer, long, inside⟩)
        · rw [refused] at sameAnswer
          exact .inr (.inr ⟨generate_of_outcome_error parsed sameAnswer, long⟩)
      · have invalid : (body handleType).isValid = false :=
          Bool.eq_false_iff.mpr fun valid => starts (isValid_body_iff.mp valid)
        obtain ⟨record, failed⟩ : ∃ record, (body handleType).apply target (fresh target handleType)
            = .error .illegalManipulation _ := Manipulation.apply_compound_of_invalid invalid _
        refine .inl ⟨starts, generate_of_outcome_error parsed ?_⟩
        rw [failed]
        rfl

/-- **When an adapter is generated.** Whatever the class and the descriptor, an adapter is generated
if and only if the descriptor can be read, takes at most 65535 bytes and has an adapter with at most
65535 bytes of code, which is then the length of the code. If none is generated, the descriptor is
to blame just if it cannot be read, and the arguments are just if it can but one of them starts past
the last local variable. Otherwise the code is too long or the text of the descriptor is. Nothing
else can fail: once the body was applied, the declared stack and the arguments fit. -/
theorem generates_or_blames (target : TargetClass) (descriptor : String) :
    let answer := (generate target descriptor).1
    let textBytes := (ModifiedUtf8.encode descriptor).length
    ((∃ adapter, answer = .ok adapter) ↔ ∃ handleType,
      MethodType.parse descriptor = .ok handleType ∧ textBytes ≤ 65535 ∧
        codeLength handleType ≤ 65535) ∧
    (∀ adapter, answer = .ok adapter →
      adapter.method.code.size = codeLength adapter.handleType) ∧
    ((∃ text, answer = .error (.badDescriptor text)) ↔
      ∀ handleType, MethodType.parse descriptor ≠ .ok handleType) ∧
    (answer = .error .illegalManipulation ↔ ∃ handleType,
      MethodType.parse descriptor = .ok handleType ∧
        ∃ k < handleType.parameters.length, 65535 < 1 + slots (handleType.parameters.take k)) ∧
    (∀ error, answer = .error error →
      error = .badDescriptor descriptor ∨ error = .illegalManipulation ∨
      (∃ length, error = .codeTooLong length ∧ 65535 < length) ∨
      (error = .pool (.textTooLong textBytes) ∧ 65535 < textBytes)) ∧
    (∀ handleType declared after, MethodType.parse descriptor = .ok handleType →
      (body handleType).apply target (fresh target handleType) = .ok declared after →
      declared.maximal ≤ 65535 ∧ 1 + handleType.parameterSlots ≤ 65535) := by
  intro answer textBytes
  have bounds : ∀ handleType declared after, MethodType.parse descriptor = .ok handleType →
      (body handleType).apply target (fresh target handleType) = .ok declared after →
      declared.maximal ≤ 65535 ∧ 1 + handleType.parameterSlots ≤ 65535 :=
    fun _ _ _ _ applied => bounds_of_apply applied
  rcases generate_cases target descriptor with
    ⟨unreadable, failed⟩ | ⟨handleType, parsed, ends⟩
  · have isAnswer : answer = .error (.badDescriptor descriptor) := failed
    exact ⟨by simp [isAnswer, unreadable], by simp [isAnswer], by simp [isAnswer, unreadable],
      by simp [isAnswer, unreadable], by simp [isAnswer], bounds⟩
  · have isText : textLength handleType = textBytes := by
      rw [textLength, ← MethodType.parse_eq_ok_iff.mp parsed]
    have late : (∃ k < handleType.parameters.length,
        65535 < 1 + slots (handleType.parameters.take k)) ↔
          ¬ StartsAddressable 1 handleType.parameters := by
      simp only [StartsAddressable, not_forall, Nat.not_le, exists_prop]
    rw [isText] at ends
    rcases ends with ⟨notInTime, failed⟩ |
      ⟨inTime, ⟨adapter, generated, short, fits, isHandle, size⟩ |
        ⟨length, failed, long, inside⟩ | ⟨failed, long⟩⟩
    · have isAnswer : answer = .error .illegalManipulation := failed
      have notFits : ¬ codeLength handleType ≤ 65535 :=
        fun fits => notInTime (startsAddressable_of_codeLength fits)
      exact ⟨by simp [isAnswer, parsed, notFits], by simp [isAnswer], by simp [isAnswer, parsed],
        by simp [isAnswer, parsed, late, notInTime], by simp [isAnswer], bounds⟩
    · have isAnswer : answer = .ok adapter := generated
      exact ⟨by simp [isAnswer, parsed, short, fits], by simp [isAnswer, size, isHandle],
        by simp [isAnswer, parsed], by simp [isAnswer, parsed, late, inTime], by simp [isAnswer],
        bounds⟩
    · have isAnswer : answer = .error (.codeTooLong length) := failed
      have notFits : ¬ codeLength handleType ≤ 65535 := by omega
      exact ⟨by simp [isAnswer, parsed, notFits], by simp [isAnswer], by simp [isAnswer, parsed],
        by simp [isAnswer, parsed, late, inTime], by simp [isAnswer, long], bounds⟩
    · have isAnswer : answer = .error (.pool (.textTooLong textBytes)) := failed
      have notShort : ¬ textBytes ≤ 65535 := Nat.not_le.mpr long
      exact ⟨by simp [isAnswer, parsed, notShort], by simp [isAnswer], by simp [isAnswer, parsed],
        by simp [isAnswer, parsed, late, inTime], by simp [isAnswer, long], bounds⟩

end Adapter

end JvmCode
