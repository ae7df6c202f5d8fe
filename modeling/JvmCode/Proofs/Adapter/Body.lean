import JvmCode.Adapter
import JvmCode.Proofs.Manipulation.ArgumentLoads
/-!
# The body of an adapter

The body of an adapter loads the handle and its arguments, which are the arguments of the
adapter in order, calls the handle with its own method type and returns what that returned.
Which instructions these are, what they do to the stack and what is declared for them follows
from the method type alone, as long as all arguments can be loaded.

## Main results

* `visits_body`: what the body hands over.
* `leafEffect_body`, `sum_codeFlows`: the declared effect, and that of the instructions.
* `runs_code`: the run of the instructions, within the declared peak.
-/

namespace JvmCode

open Instruction

/-- A return takes off the slots of the returned value. -/
theorem MethodType.slots_returnKind (type : MethodType) :
    (ReturnKind.ofType type.returnType).size.slots = type.returnSlots := by
  rw [ReturnKind.size_ofType, returnSlots]
  cases type.returnType with
  | none => rfl
  | some returned => exact ValueSize.ofType_slots returned

theorem MethodType.returnSlots_le (type : MethodType) : type.returnSlots ≤ 2 := by
  rw [returnSlots]
  cases type.returnType with
  | none => exact Nat.zero_le 2
  | some returned => exact returned.width_le

/-- Taking off as many slots as there are leaves none. -/
theorem OperandStack.drop?_eq_nil {count : Nat} {stack : OperandStack}
    (height : stack.length = count) : stack.drop? count = some [] := by
  rw [drop?, if_pos (Nat.le_of_eq height.symm), ← height, List.drop_length]

/-- A call of a handle takes everything off a stack that holds just the handle and its
arguments, and the return takes off what the call has put there. -/
theorem HandleInvocation.runs_call_ret (invocation : HandleInvocation) {limit : Nat}
    {stack : OperandStack} (height : stack.length = 1 + invocation.methodType.parameterSlots)
    (room : invocation.methodType.returnSlots ≤ limit) :
    Runs limit stack
      [.invoke invocation.call, .ret (.ofType invocation.methodType.returnType)] [] := by
  have parsed : MethodType.parse invocation.call.descriptor = .ok invocation.methodType :=
    invocation.methodType.parse_descriptor
  have taken : stack.drop? (invocation.methodType.argumentSlots true) = some [] := by
    apply OperandStack.drop?_eq_nil
    rw [height, Nat.add_comm]
    rfl
  have receiver : invocation.call.kind.hasReceiver = true := rfl
  cases returns : invocation.methodType.returnType with
  | none =>
      have called : (Instruction.invoke invocation.call).step? stack = some [] := by
        simp only [step?, parsed, receiver, taken, returns]
      exact .cons called (Nat.zero_le _) (.cons rfl (Nat.zero_le _) (.nil _))
  | some returned =>
      have called : (Instruction.invoke invocation.call).step? stack
          = some (OperandStack.push (.ofType returned) []) := by
        simp only [step?, parsed, receiver, taken, returns]
      have height : (OperandStack.push (.ofType returned) []).length
          = (ComputationalType.ofType returned).width := OperandStack.length_push _ _
      have within : (OperandStack.push (.ofType returned) []).length ≤ limit := by
        rw [height, ComputationalType.ofType_width]
        simpa only [MethodType.returnSlots, returns] using room
      have left := OperandStack.drop?_eq_nil height
      exact .cons called within (.cons left (Nat.zero_le _) (.nil _))

namespace Adapter

variable {handleType : MethodType}

/-! ## The body -/

/-- The instructions of an adapter: its arguments are loaded, the handle is called, and its
result is returned. -/
def code (handleType : MethodType) : List Instruction :=
  loads (argumentVariables 0 (type handleType).parameters)
    ++ [.invoke (HandleInvocation.mk handleType).call, .ret (.ofType handleType.returnType)]

/-- How the instructions of an adapter are handed over: the call is handed over as one. -/
def visits (handleType : MethodType) : List Visit :=
  (loads (argumentVariables 0 (type handleType).parameters)).map Visit.instruction
    ++ [.call (HandleInvocation.mk handleType).call,
      .instruction (.ret (.ofType handleType.returnType))]

theorem argumentVariables_type (handleType : MethodType) :
    argumentVariables 0 (type handleType).parameters
      = (.reference, 0) :: argumentVariables 1 handleType.parameters := by
  rw [type, argumentVariables_cons]
  rfl

/-- The leaves of a valid body: the handle and all its arguments can be loaded. -/
theorem leaves_body (valid : (body handleType).isValid = true) :
    (body handleType).leaves
      = (argumentVariables 0 (type handleType).parameters).map
          (fun (kind, index) => .load kind index)
        ++ [.invokeHandle ⟨handleType⟩, .ret (.ofType handleType.returnType)] := by
  have loadable : Manipulation.allValid
      (Manipulation.argumentLoads #[] 1 handleType.parameters) = true :=
    (Manipulation.isValid_compound _).mp valid (.allArguments handleType 1) (by simp)
  have leaves := Manipulation.leaves_argumentLoads loadable
  rw [argumentVariables_type, body, Manipulation.leaves_compound]
  simp only [List.flatMap_cons, List.flatMap_nil, Manipulation.leaves_step,
    Manipulation.allArguments]
  rw [show (1 : UInt16).toNat = 1 from rfl, leaves]
  rfl

/-- All leaves of a valid body have something to hand over. -/
theorem deliverable_body (target : TargetClass) (valid : (body handleType).isValid = true) :
    (body handleType).Deliverable target := by
  intro leaf member
  rw [leaves_body valid] at member
  obtain load | other := List.mem_append.mp member
  · obtain ⟨place, _, rfl⟩ := List.mem_map.mp load
    exact ⟨_, rfl⟩
  · obtain rfl | last := List.mem_cons.mp other
    · exact ⟨_, rfl⟩
    · obtain rfl := List.mem_singleton.mp last
      exact ⟨_, rfl⟩

theorem visits_body (target : TargetClass) (valid : (body handleType).isValid = true) :
    (body handleType).visits target = visits handleType := by
  rw [Manipulation.visits, leaves_body valid, List.flatMap_append, Primitive.flatMap_visits_load]
  rfl

theorem instructions_visits (handleType : MethodType) :
    Visit.instructions (visits handleType) = code handleType := by
  rw [visits, Visit.instructions_append, Visit.instructions_map_instruction, code]
  rfl

/-- Behind a meter and a tracer, the body is handed over as its instructions. -/
theorem forwarded_visits (handleType : MethodType) :
    ((visits handleType).map Visit.forwarded).map Visit.forwarded
      = (code handleType).map Visit.instruction := by
  rw [visits, code, List.map_append, List.map_append, List.map_append, List.map_map, List.map_map]
  rfl

/-- The effect of pieces of code that come after all arguments were loaded, one by one. -/
theorem sum_loads (handleType : MethodType) (first second : StackEffect) :
    StackEffect.sum
        ((type handleType).parameters.map (fun type => StackEffect.push type.width)
          ++ [first, second])
      = ((StackEffect.push (1 + handleType.parameterSlots)).aggregate first).aggregate second := by
  rw [StackEffect.sum, List.foldl_append]
  show [first, second].foldl _
    (List.foldl StackEffect.aggregate (StackEffect.push 0) _) = _
  rw [StackEffect.foldl_push_width, Nat.zero_add, ← locals_type]
  rfl

/-- The handle is still counted after the call, so one slot is left. -/
theorem leafEffect_body (valid : (body handleType).isValid = true) :
    (body handleType).leafEffect
      = ⟨1, 1 + max handleType.parameterSlots handleType.returnSlots⟩ := by
  rw [Manipulation.leafEffect, leaves_body valid, List.map_append, Primitive.map_effect_load]
  show StackEffect.sum (_ ++ [HandleInvocation.effect ⟨handleType⟩,
    ValueSize.popped (ReturnKind.ofType handleType.returnType).size]) = _
  rw [sum_loads, ValueSize.popped, handleType.slots_returnKind]
  simp only [HandleInvocation.effect, StackEffect.push, StackEffect.pop, StackEffect.aggregate,
    StackEffect.mk.injEq]
  omega

/-- The slots that each instruction of an adapter takes off the stack and puts on it. -/
def codeFlows (handleType : MethodType) : List SlotFlow :=
  (type handleType).parameters.map (fun type => ⟨0, type.width⟩)
    ++ [⟨handleType.argumentSlots true, handleType.returnSlots⟩, ⟨handleType.returnSlots, 0⟩]

theorem map_flow_visits (handleType : MethodType) :
    (visits handleType).map Visit.flow = (codeFlows handleType).map Except.ok := by
  have called : Visit.flow (.call (HandleInvocation.mk handleType).call)
      = .ok ⟨handleType.argumentSlots true, handleType.returnSlots⟩ :=
    HandleInvocation.flow_call ⟨handleType⟩
  have returned : Visit.flow (.instruction (.ret (.ofType handleType.returnType)))
      = .ok ⟨handleType.returnSlots, 0⟩ := by
    rw [← handleType.slots_returnKind]
    rfl
  rw [visits, codeFlows, List.map_append, List.map_append, Visit.map_flow_instruction,
    map_flow_loads]
  simp only [List.map_cons, List.map_nil, called, returned]

theorem exists_flow_of_mem_visits :
    ∀ visit ∈ visits handleType, ∃ flow, visit.flow = .ok flow := by
  intro visit member
  have isFlow : visit.flow ∈ (visits handleType).map Visit.flow := List.mem_map_of_mem member
  rw [map_flow_visits] at isFlow
  obtain ⟨flow, _, same⟩ := List.mem_map.mp isFlow
  exact ⟨flow, same.symm⟩

/-- The call takes the handle as well, so nothing is left. -/
theorem sum_codeFlows (handleType : MethodType) :
    StackEffect.sum ((codeFlows handleType).map SlotFlow.effect)
      = ⟨0, max (1 + handleType.parameterSlots) handleType.returnSlots⟩ := by
  have pushes : ((type handleType).parameters.map fun type => SlotFlow.mk 0 type.width).map
      SlotFlow.effect = (type handleType).parameters.map fun type => .push type.width := by
    rw [List.map_map]
    simp only [Function.comp_def, SlotFlow.effect_push]
  have taken : handleType.argumentSlots true = handleType.parameterSlots + 1 := rfl
  rw [codeFlows, List.map_append, pushes, List.map_cons, List.map_singleton, sum_loads, taken]
  simp only [SlotFlow.effect, StackEffect.push, StackEffect.aggregate, StackEffect.mk.injEq]
  omega

/-! ## The run -/

/-- An adapter runs from an empty stack to an empty stack. -/
theorem runs_code (handleType : MethodType) :
    Runs (1 + max handleType.parameterSlots handleType.returnSlots) [] (code handleType) [] := by
  have slots : slots (type handleType).parameters = 1 + handleType.parameterSlots :=
    locals_type handleType
  have height : ((argumentParts (type handleType).parameters).reverse ++ []).length
      = 1 + handleType.parameterSlots := by
    rw [List.append_nil, List.length_reverse, length_argumentParts, slots]
  have loaded : Runs (1 + max handleType.parameterSlots handleType.returnSlots) []
      (loads (argumentVariables 0 (type handleType).parameters))
      ((argumentParts (type handleType).parameters).reverse ++ []) := by
    apply runs_loads
    rw [slots, List.length_nil]
    omega
  have room : handleType.returnSlots
      ≤ 1 + max handleType.parameterSlots handleType.returnSlots := by omega
  exact loaded.append (HandleInvocation.runs_call_ret ⟨handleType⟩ height room)

end Adapter

end JvmCode
