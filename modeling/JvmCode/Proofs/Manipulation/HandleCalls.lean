import JvmCode.Proofs.Descriptor.RoundTrip
import JvmCode.Proofs.Manipulation.Delivery
import JvmCode.Proofs.Sink.SettledCode
/-!
# Calls of method handles

A call of a method handle is written with the place of a method whose descriptor is that of the
method type. The pool holds that method once, and a descriptor is that of one method type only. So
the places tell method types apart, over the whole life of an assembler.

## Main results

* `exists_index_of_invokeHandle`: what a call of a handle writes.
* `invokeHandle_index_eq_iff`: two calls in a run.
-/

namespace JvmCode

open ConstantPool Instruction

/-- In one pool, requests were answered with the same index just if they are the same. -/
theorem ConstantPool.index_eq_iff {pool : ConstantPool} (h : pool.Consistent)
    {first second : PoolRequest} {i j : PoolIndex}
    (isFirst : pool.follow? i = some first.resolved)
    (isSecond : pool.follow? j = some second.resolved) : i = j ↔ first = second := by
  constructor
  · rintro rfl
    exact PoolRequest.resolved_injective (Option.some.inj (isFirst.symm.trans isSecond))
  · rintro rfl
    have same := (resolve_of_follow? h isFirst).symm.trans (resolve_of_follow? h isSecond)
    cases same
    rfl

/-- A call of a method that is not one of an interface is its opcode and the place of the method. -/
theorem Instruction.encode_invoke_answers {pool : ConstantPool} (h : pool.Consistent)
    {call : MethodCall} (notInterface : call.kind ≠ .interface) :
    Answers pool (Instruction.invoke call).encode fun bytes after => ∃ index : PoolIndex,
      bytes = (0xB6 + call.kind.ordinal) :: toBytes index ∧
        after.follow? index = some call.request.resolved := by
  have noTrailer : call.trailer = .ok [] := by
    rw [MethodCall.trailer]
    cases kind : call.kind with
    | interface => exact absurd kind notInterface
    | _ => rfl
  refine (place_answers h call.request).bind fun index after consistent _ found => ?_
  refine (ofExcept_answers consistent call.trailer).bind
    fun trailer last known grown isTrailer => ?_
  refine ⟨known, .refl last, index, ?_, follow?_of_extends grown found⟩
  rw [noTrailer] at isTrailer
  cases isTrailer
  rw [List.append_nil]

namespace Manipulation

variable {target target' : TargetClass} {start called : Assembler} {log log' : Array LogRecord}
  {declared declared' : StackEffect}

theorem visits_invokeHandle (invocation : HandleInvocation) :
    (step (.invokeHandle invocation)).visits target = [.call invocation.call] := by
  rw [visits, leaves_step]
  rfl

/-- A call of a handle is written if it can be encoded and has room. -/
theorem apply_invokeHandle_of_encode {invocation : HandleInvocation} {assembler : Assembler}
    {bytes : List UInt8} {pool : ConstantPool}
    (encoded : (Instruction.invoke invocation.call).encode assembler.pool = .ok bytes pool)
    (room : assembler.code.size + bytes.length ≤ Assembler.codeLimit) :
    Emission.outcome (apply target (step (.invokeHandle invocation)) ⟨assembler, log⟩)
      = (Assembler.write { assembler with pool := pool } bytes, .ok invocation.effect) := by
  have accepted : (Visit.call invocation.call).hand assembler
      = .done (Assembler.write { assembler with pool := pool } bytes) := by
    show Assembler.accept (.invoke invocation.call) assembler = _
    rw [Assembler.accept_of_encode_ok encoded, if_pos room]
    rfl
  have deliverable : (step (.invokeHandle invocation)).Deliverable target := by
    intro leaf member
    rw [leaves_step] at member
    obtain rfl := List.mem_singleton.mp member
    exact ⟨_, rfl⟩
  have taken : Takes assembler ((step (.invokeHandle invocation)).visits target)
      (Assembler.write { assembler with pool := pool } bytes) := by
    rw [visits_invokeHandle]
    refine .cons ?_ ?_
    · rw [accepted]
      rfl
    · rw [accepted]
      exact .nil _
  have effect : (step (.invokeHandle invocation)).leafEffect = invocation.effect :=
    leafEffect_step _
  rw [← effect]
  exact Emission.outcome_eq_ok_iff.mpr (exists_apply _ deliverable taken)

/-- A call of a handle is written as its opcode and the place of the called method. -/
theorem exists_index_of_invokeHandle (reachable : start.Reachable) {invocation : HandleInvocation}
    (applied : Emission.outcome (apply target (step (.invokeHandle invocation)) ⟨start, log⟩)
      = (called, .ok declared)) :
    called.Reachable ∧ start.pool.Extends called.pool ∧ ∃ index : PoolIndex,
      called.code = start.code ++ (0xB6 :: toBytes index) ∧
        called.pool.follow? index = some invocation.call.request.resolved := by
  obtain ⟨after, succeeded, isCalled⟩ := Emission.outcome_eq_ok_iff.mp applied
  obtain ⟨taken, _⟩ := apply_takes _ succeeded
  rw [visits_invokeHandle, isCalled] at taken
  refine ⟨reachable.takes taken, ?_⟩
  obtain ⟨_, holds⟩ := reachable.exists_holds
  obtain ⟨grown, _⟩ := taken.settles holds
  refine ⟨grown, ?_⟩
  cases taken with
  | cons accepted rest =>
      cases rest
      obtain ⟨bytes, pool, encoded, isSink⟩ := Assembler.exists_encode_of_accepted accepted
      have notInterface : invocation.call.kind ≠ .interface := nofun
      have answers := encode_invoke_answers reachable.consistent notInterface
      obtain ⟨_, _, index, rfl, found⟩ := answers.of_ok encoded
      exact ⟨index, congrArg Assembler.code isSink, (congrArg Assembler.pool isSink) ▸ found⟩

/-- **Calls of handles share their place just if the method types are equal.** Take an assembler in
any use, and let calls of two handles be written with it, successfully, with any visits before,
between and after them, whatever these are answered. Each call is written as its opcode and a place
in the pool. The two places are equal just if the method types are, which they are just if their
descriptors are, and just if the invocations are. -/
theorem invokeHandle_index_eq_iff (a b : MethodType) (reachable : start.Reachable)
    (first : Emission.outcome (apply target (step (.invokeHandle ⟨a⟩)) ⟨start, log⟩)
      = (called, .ok declared))
    {between : List Visit} {final : Assembler}
    (second : Emission.outcome (apply target' (step (.invokeHandle ⟨b⟩))
      ⟨(Visit.handAll called between).1, log'⟩) = (final, .ok declared'))
    (later : List Visit) :
    let resumed := (Visit.handAll called between).1
    let ended := (Visit.handAll final later).1
    ∃ (i j : PoolIndex) (middle back : List UInt8),
      called.code = start.code ++ (0xB6 :: toBytes i) ∧
      resumed.code = called.code ++ middle ∧
      final.code = resumed.code ++ (0xB6 :: toBytes j) ∧
      ended.code = final.code ++ back ∧
      ended.pool.follow? i = some (HandleInvocation.mk a).call.request.resolved ∧
      ended.pool.follow? j = some (HandleInvocation.mk b).call.request.resolved ∧
      (i = j ↔ a = b) ∧
      (a = b ↔ a.descriptor = b.descriptor) ∧
      (a = b ↔ HandleInvocation.mk a = HandleInvocation.mk b) := by
  intro resumed ended
  obtain ⟨reachableCalled, _, i, isCalled, foundFirst⟩ :=
    exists_index_of_invokeHandle reachable first
  have reachableResumed : resumed.Reachable := reachableCalled.handAll between
  obtain ⟨reachableFinal, grown, j, isFinal, foundSecond⟩ :=
    exists_index_of_invokeHandle reachableResumed second
  have reachableEnded : ended.Reachable := reachableFinal.handAll later
  obtain ⟨middle, isMiddle, _⟩ := Assembler.exists_code_handAll called between
  obtain ⟨back, isBack, _⟩ := Assembler.exists_code_handAll final later
  have toResumed : called.pool.Extends resumed.pool := reachableCalled.extends_handAll between
  have toEnded : final.pool.Extends ended.pool := reachableFinal.extends_handAll later
  have stillFirst := follow?_of_extends (toResumed.trans (grown.trans toEnded)) foundFirst
  have stillSecond := follow?_of_extends toEnded foundSecond
  have sameDescriptor : a = b ↔ a.descriptor = b.descriptor :=
    ⟨congrArg _, fun same => MethodType.descriptor_injective same⟩
  have sameRequest : (HandleInvocation.mk a).call.request = (HandleInvocation.mk b).call.request
      ↔ a.descriptor = b.descriptor := by
    simp [MethodCall.request, HandleInvocation.call]
  refine ⟨i, j, middle, back, isCalled, isMiddle, isFinal, isBack, stillFirst, stillSecond, ?_,
    sameDescriptor, ?_⟩
  · rw [index_eq_iff reachableEnded.consistent stillFirst stillSecond, sameRequest,
      sameDescriptor]
  · rw [HandleInvocation.mk.injEq]

/-- Two calls of handles that take an `int`. The places of both are that of the first one. -/
theorem invokeHandle_index_eq_iff_int :
    let target : TargetClass := ⟨.object, .java7⟩
    let invoke := step (.invokeHandle ⟨⟨[.base .int], none⟩⟩)
    let between := [Visit.instruction .nop]
    ∃ called final,
      Emission.outcome (apply target invoke ⟨Assembler.empty, #[]⟩) = (called, .ok ⟨-1, 0⟩) ∧
      Emission.outcome (apply target invoke ⟨(Visit.handAll called between).1, #[]⟩)
        = (final, .ok ⟨-1, 0⟩) ∧
      ∃ index : PoolIndex, called.code = Assembler.empty.code ++ (0xB6 :: toBytes index) ∧
        final.code = (Visit.handAll called between).1.code ++ (0xB6 :: toBytes index) := by
  intro target invoke between
  let invocation : HandleInvocation := ⟨⟨[.base .int], none⟩⟩
  have encoded : ∃ pool, (Instruction.invoke invocation.call).encode ∅
      = .ok [0xB6, 0, 6] pool := by
    have call : invocation.call = ⟨.virtual, .methodHandle, .invokeExact, "(I)V", false⟩ := rfl
    simp [call, Instruction.encode, EncodeM.place, EncodeM.ofExcept, MethodCall.trailer,
      MethodCall.request, ConstantPool.resolve, ConstantPool.internMethodRef,
      ConstantPool.internClass, ConstantPool.internText, ConstantPool.intern, bind, EStateM.bind,
      pure, EStateM.pure, ModifiedUtf8.byteLength, ModifiedUtf8.charWidth, BinaryName.methodHandle,
      UnqualifiedName.invokeExact, ConstantPool.limit, ConstantPool.count,
      EmptyCollection.emptyCollection, ConstantPool.empty, Constant.width]
    exact ⟨rfl, rfl⟩
  obtain ⟨pool, encoded⟩ := encoded
  obtain ⟨consistent, _, settled⟩ := (encode_settles consistent_empty _).of_ok encoded
  let called : Assembler := Assembler.write { Assembler.empty with pool := pool } [0xB6, 0, 6]
  let resumed : Assembler := (Visit.handAll called between).1
  have first : Emission.outcome (apply target invoke ⟨Assembler.empty, #[]⟩)
      = (called, .ok ⟨-1, 0⟩) :=
    apply_invokeHandle_of_encode encoded (by decide)
  have isResumed : resumed = called.write [0x00] := rfl
  have again : (Instruction.invoke invocation.call).encode resumed.pool
      = .ok [0xB6, 0, 6] resumed.pool :=
    settled pool consistent (.refl pool)
  have room : resumed.code.size + [(0xB6 : UInt8), 0, 6].length ≤ Assembler.codeLimit := by
    rw [isResumed]
    show 4 + 3 ≤ 65535
    decide
  have second : Emission.outcome (apply target invoke ⟨resumed, #[]⟩)
      = (resumed.write [0xB6, 0, 6], .ok ⟨-1, 0⟩) :=
    apply_invokeHandle_of_encode again room
  have reachable : Assembler.empty.Reachable := ⟨[], [], rfl⟩
  obtain ⟨i, j, _, _, isFirst, _, isSecond, _, _, _, same, _⟩ :=
    invokeHandle_index_eq_iff _ _ reachable first second []
  obtain rfl := same.mpr rfl
  exact ⟨called, _, first, second, i, isFirst, isSecond⟩

end Manipulation

end JvmCode
