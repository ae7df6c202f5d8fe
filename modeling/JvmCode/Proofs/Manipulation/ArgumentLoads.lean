import JvmCode.Proofs.Descriptor.RoundTrip
import JvmCode.Proofs.Manipulation.LoadableArguments
import JvmCode.Proofs.Manipulation.Outcomes
/-!
# Loads of all arguments

A load reads the local variables of one value (`localsRead`). The loads of the arguments of a
method read the slots of its parameters: each of them once, in order, and no others. So their
number, the effect that is declared for them and the slots that a descriptor asks for agree.

## Main results

* `getElem?_loads`: the load of one parameter.
* `flatMap_localsRead_loads`: what the loads read, by induction along the parameters.
* `flatMap_visits_load`, `script_allArguments`: what is handed over for them.
* `apply_allArguments`: what comes of loading all arguments, with any sink.
-/

namespace JvmCode

/-! ## Local variables that are read -/

namespace Instruction

/-- The local variables that an instruction reads: the slots of the value that it loads. -/
def localsRead : Instruction → List Nat
  | load kind index => List.range' index.toNat kind.width
  | _ => []

section Loads

variable {first : Nat} {types : List FieldType}

/-- The load of a parameter is of its kind, from behind the slots of the parameters before. -/
theorem getElem?_loads (starts : StartsAddressable first types) {k : Nat}
    (inside : k < types.length) : ∃ index : UInt16,
      (loads (argumentVariables first types))[k]? = some (.load (.ofType types[k]) index) ∧
        index.toNat = first + slots (types.take k) := by
  refine ⟨UInt16.ofNat (first + slots (types.take k)), ?_, ?_⟩
  · rw [loads, argumentVariables, List.getElem?_map, List.getElem?_mapIdx,
      List.getElem?_eq_getElem inside]
    rfl
  · have inTime := starts k inside
    exact UInt16.toNat_ofNat_of_lt' (Nat.lt_succ_of_le inTime)

/-- The loads read the slots of the parameters from the first one on, without gaps. -/
theorem flatMap_localsRead_loads (starts : StartsAddressable first types) :
    (loads (argumentVariables first types)).flatMap localsRead
      = List.range' first (slots types) := by
  induction types generalizing first with
  | nil => rfl
  | cons type types ih =>
      obtain ⟨inTime, later⟩ := startsAddressable_cons_iff.mp starts
      have isFirst : (UInt16.ofNat first).toNat = first :=
        UInt16.toNat_ofNat_of_lt' (Nat.lt_succ_of_le inTime)
      have own : localsRead (.load (.ofType type) (UInt16.ofNat first))
          = List.range' first type.width := by
        rw [localsRead, isFirst, ComputationalType.ofType_width]
      have others := ih later
      rw [argumentVariables_cons, slots_cons, ← List.range'_append_1, ← others, ← own]
      rfl

/-- What is read without gaps is not read twice. -/
theorem pairwise_localsRead_of_range' {instructions : List Instruction} {count : Nat}
    (tile : instructions.flatMap localsRead = List.range' first count) :
    instructions.Pairwise fun a b => ∀ slot ∈ a.localsRead, slot ∉ b.localsRead := by
  have increasing : (instructions.flatMap localsRead).Pairwise (· < ·) := by
    rw [tile]
    exact List.pairwise_lt_range'
  refine (List.pairwise_flatMap.mp increasing).2.imp fun {a b} below slot inFirst inSecond => ?_
  exact Nat.lt_irrefl slot (below slot inFirst slot inSecond)

end Loads

end Instruction

/-! ## What is handed over -/

open Instruction

variable {σ : Type} [MethodSink σ] {target : TargetClass}

/-- Loads hand over one instruction each. -/
theorem Primitive.flatMap_visits_load (target : TargetClass)
    (places : List (ComputationalType × UInt16)) :
    (places.map fun (kind, index) => load kind index).flatMap (visits target)
      = (loads places).map Visit.instruction := by
  rw [List.flatMap_map, loads, List.map_map, List.map_eq_flatMap]
  rfl

namespace Manipulation

variable {type : MethodType} {first : UInt16}

theorem deliverable_allArguments (target : TargetClass)
    (valid : (allArguments type first).isValid = true) :
    (allArguments type first).Deliverable target := by
  intro leaf member
  rw [allArguments, leaves_argumentLoads valid] at member
  obtain ⟨place, _, rfl⟩ := List.mem_map.mp member
  exact ⟨_, rfl⟩

theorem leafEffect_allArguments (valid : (allArguments type first).isValid = true) :
    (allArguments type first).leafEffect = .push type.parameterSlots := by
  rw [leafEffect, allArguments, leaves_argumentLoads valid, Primitive.map_effect_load,
    StackEffect.sum]
  show List.foldl _ (StackEffect.push 0) _ = _
  rw [StackEffect.foldl_push_width, Nat.zero_add]
  rfl

/-- The loads of all arguments, and nothing else. -/
theorem script_allArguments (target : TargetClass)
    (valid : (allArguments type first).isValid = true) :
    (allArguments type first).script target
      = ⟨(loads (argumentVariables first.toNat type.parameters)).map Visit.instruction,
          .ok (.push type.parameterSlots)⟩ := by
  rw [script_of_deliverable (deliverable_allArguments target valid),
    leafEffect_allArguments valid, visits, allArguments, leaves_argumentLoads valid,
    Primitive.flatMap_visits_load]

/-- **Loading all arguments.** Let all arguments be loaded from the first local variable on. If the
loads are valid, there is one for each parameter, in order. It is of the kind of the parameter, and
starts behind the slots of the parameters before. No local variable is read by two of them, and
together they read those of the slots of all parameters. Any sink is handed the loads and nothing
else, up to the first one that it refuses; a sink that collects instructions collects the loads. The
declared effect is to push as many slots as a method with the descriptor has for its parameters. If
the loads are not valid, nothing is handed over. -/
theorem apply_allArguments (target : TargetClass) (type : MethodType) (first : UInt16)
    (sink : σ) (collected : Array Instruction) (log : Array LogRecord) :
    let arguments := allArguments type first
    let instructions := loads (argumentVariables first.toNat type.parameters)
    let slotCount := type.parameterSlots
    (arguments.isValid = true →
      instructions.length = type.parameters.length ∧
      (∀ k, ∀ inside : k < type.parameters.length, ∃ index : UInt16,
        instructions[k]? = some (.load (.ofType type.parameters[k]) index) ∧
          index.toNat = first.toNat + slots (type.parameters.take k)) ∧
      (instructions.Pairwise fun a b => ∀ slot ∈ a.localsRead, slot ∉ b.localsRead) ∧
      instructions.flatMap localsRead = List.range' first.toNat slotCount ∧
      (let delivered := Visit.deliver sink (instructions.map Visit.instruction)
       Emission.outcome (apply target arguments ⟨sink, log⟩)
        = (delivered.1, delivered.2.map fun () => ⟨slotCount, slotCount⟩)) ∧
      Emission.outcome (apply target arguments ⟨collected, log⟩)
        = (collected ++ instructions.toArray, .ok ⟨slotCount, slotCount⟩)) ∧
    (arguments.isValid = false →
      Emission.outcome (apply target arguments ⟨sink, log⟩)
        = (sink, .error .illegalManipulation)) ∧
    (MethodType.parse type.descriptor).map (fun parsed => parsed.argumentSlots false)
      = .ok slotCount := by
  intro arguments instructions slotCount
  refine ⟨fun valid => ?_, fun invalid => ?_, ?_⟩
  · have starts : StartsAddressable first.toNat type.parameters :=
      allValid_argumentLoads_iff.mp valid
    have tile : instructions.flatMap localsRead = List.range' first.toNat slotCount :=
      flatMap_localsRead_loads starts
    have whole : arguments.script target
        = ⟨instructions.map Visit.instruction, .ok ⟨slotCount, slotCount⟩⟩ :=
      script_allArguments target valid
    refine ⟨?_, fun k inside => getElem?_loads starts inside, pairwise_localsRead_of_range' tile,
      tile, ?_, ?_⟩
    · simp only [instructions, loads, argumentVariables, List.length_map, List.length_mapIdx]
    · rw [performs_apply target arguments ⟨sink, log⟩, whole, Script.perform_answering]
    · have instruct : ∀ visit ∈ (arguments.script target).visits, visit.Instructs :=
        fun _ member => instructs_of_mem_script member
      rw [whole] at instruct
      have taken := takes_array instruct collected
      rw [Visit.instructions_map_instruction] at taken
      rw [performs_apply target arguments ⟨collected, log⟩, whole]
      exact Script.perform_of_takes taken
  · rw [performs_apply target arguments ⟨sink, log⟩, script_of_invalid invalid]
    rfl
  · rw [MethodType.parse_descriptor]
    rfl

/-- Values of one and of two slots after a receiver, and two of two slots at the end of the local
variables, where the second one has no place. -/
theorem apply_allArguments_wide :
    let target : TargetClass := ⟨.object, .java7⟩
    let mixed := allArguments ⟨[.base .int, .base .long, .object .object, .base .double], none⟩ 1
    let late := allArguments ⟨[.base .long, .base .long], none⟩ 65534
    mixed.isValid = true ∧
      Emission.outcome (apply target mixed ⟨(#[] : Array Instruction), #[]⟩)
        = (#[.load .int 1, .load .long 2, .load .reference 4, .load .double 5], .ok ⟨6, 6⟩) ∧
      late.isValid = false ∧
      Emission.outcome (apply target late ⟨(#[] : Array Instruction), #[]⟩)
        = (#[], .error .illegalManipulation) := by
  intro target mixed late
  have accepted : mixed.isValid = true := by decide
  have rejected : late.isValid = false := by decide
  obtain ⟨whenValid, _, _⟩ :=
    apply_allArguments target _ 1 (#[] : Array Instruction) (#[] : Array Instruction) #[]
  obtain ⟨_, whenInvalid, _⟩ :=
    apply_allArguments target _ 65534 (#[] : Array Instruction) (#[] : Array Instruction) #[]
  obtain ⟨_, _, _, _, _, collected⟩ := whenValid accepted
  exact ⟨accepted, collected, rejected, whenInvalid rejected⟩

end Manipulation

end JvmCode
