import JvmCode.Manipulation.Leaves
import JvmCode.Proofs.Instruction.Execution
import JvmCode.StackEffect.Basic
/-!
# Arguments in local variables

The arguments of a method stand in its first local variables, in order and without gaps, so
each of them starts after the slots of those before it (`argumentVariables`). Loading arguments
one after the other follows this layout, as long as none of them starts past the last local
variable, and leaves them on the stack in the same order.

## Main results

* `take_drop_argumentParts`: what the local variables of an argument hold.
* `leaves_argumentLoads`: the loads of the arguments, if they can all be loaded.
* `runs_loads`: the stack after the loads.
-/

namespace JvmCode

/-! ## The layout -/

/-- A value takes one or two slots. -/
theorem FieldType.width_le (type : FieldType) : type.width ≤ 2 := by
  cases type with
  | base type => cases type <;> decide
  | object _ => exact Nat.le_succ 1
  | array _ => exact Nat.le_succ 1

theorem slots_append (types more : List FieldType) :
    slots (types ++ more) = slots types + slots more := by
  induction types with
  | nil => rw [List.nil_append, slots_nil, Nat.zero_add]
  | cons type types ih => rw [List.cons_append, slots_cons, slots_cons, ih, Nat.add_assoc]

/-- The slots of the first types and those of the others are all there are. -/
theorem slots_take_add_slots_drop (types : List FieldType) (k : Nat) :
    slots (types.take k) + slots (types.drop k) = slots types := by
  rw [← slots_append, List.take_append_drop]

/-- An argument ends inside the slots of all of them. -/
theorem slots_take_add_width_le {types : List FieldType} {k : Nat} (inside : k < types.length) :
    slots (types.take k) + types[k].width ≤ slots types := by
  have all := slots_take_add_slots_drop types k
  rw [List.drop_eq_getElem_cons inside, slots_cons] at all
  omega

theorem argumentParts_cons (type : FieldType) (types : List FieldType) :
    argumentParts (type :: types)
      = (ComputationalType.ofType type).parts ++ argumentParts types := by
  rw [argumentParts, List.flatMap_cons, argumentParts]

theorem length_argumentParts (types : List FieldType) :
    (argumentParts types).length = slots types := by
  induction types with
  | nil => rfl
  | cons type types ih =>
      rw [argumentParts_cons, List.length_append, ih, ComputationalType.length_parts,
        ComputationalType.ofType_width, slots_cons]

/-- Behind the slots of the first arguments are the others. -/
theorem drop_argumentParts (types : List FieldType) (k : Nat) :
    (argumentParts types).drop (slots (types.take k)) = argumentParts (types.drop k) := by
  have cut : argumentParts types
      = argumentParts (types.take k) ++ argumentParts (types.drop k) := by
    rw [argumentParts, argumentParts, argumentParts, ← List.flatMap_append,
      List.take_append_drop]
  rw [cut, ← length_argumentParts, List.drop_left]

/-- The local variables from where an argument starts hold its parts. -/
theorem take_drop_argumentParts {types : List FieldType} {k : Nat} (inside : k < types.length) :
    let kind := ComputationalType.ofType types[k]
    ((argumentParts types).drop (slots (types.take k))).take kind.width = kind.parts := by
  intro kind
  rw [drop_argumentParts, List.drop_eq_getElem_cons inside, argumentParts_cons,
    ← ComputationalType.length_parts]
  exact List.take_left

/-! ## Loading -/

/-- The kinds of arguments, and the local variables in which they start when the first of them
starts in the given one. -/
def argumentVariables (first : Nat) (types : List FieldType) : List (ComputationalType × UInt16) :=
  types.mapIdx fun k type => (.ofType type, UInt16.ofNat (first + slots (types.take k)))

theorem argumentVariables_cons (first : Nat) (type : FieldType) (types : List FieldType) :
    argumentVariables first (type :: types)
      = (.ofType type, UInt16.ofNat first) :: argumentVariables (first + type.width) types := by
  have next : ∀ k, first + slots ((type :: types).take (k + 1))
      = first + type.width + slots (types.take k) := by
    intro k
    rw [List.take_succ_cons, slots_cons, Nat.add_assoc]
  rw [argumentVariables, List.mapIdx_cons]
  simp only [next]
  rfl

theorem map_fst_argumentVariables (first : Nat) (types : List FieldType) :
    (argumentVariables first types).map Prod.fst = types.map ComputationalType.ofType := by
  induction types generalizing first with
  | nil => rfl
  | cons type types ih => rw [argumentVariables_cons, List.map_cons, List.map_cons, ih]

/-- If all arguments can be loaded, they are loaded from their local variables. -/
theorem Manipulation.leaves_argumentLoads {first : Nat} {types : List FieldType}
    (valid : allValid (argumentLoads #[] first types) = true) :
    (compound (argumentLoads #[] first types)).leaves
      = (argumentVariables first types).map fun (kind, index) => .load kind index := by
  rw [leaves]
  induction types generalizing first with
  | nil => rfl
  | cons type types ih =>
      rw [argumentLoads] at valid ⊢
      by_cases addressable : first ≤ 65535
      · rw [if_pos addressable, argumentLoads_eq] at valid ⊢
        have others : allValid (argumentLoads #[] (first + type.width) types) = true := by
          simpa [allValid, isValid, Primitive.isValid] using valid
        rw [argumentVariables_cons, List.map_cons, ← ih others]
        rfl
      · rw [if_neg addressable] at valid
        cases valid

/-- A load is declared to put a value on the stack. -/
theorem Primitive.map_effect_load (first : Nat) (types : List FieldType) :
    ((argumentVariables first types).map fun (kind, index) => load kind index).map effect
      = types.map fun type => .push type.width := by
  have kinds : ((argumentVariables first types).map fun (kind, index) => load kind index).map effect
      = ((argumentVariables first types).map Prod.fst).map fun kind => .push kind.width := by
    rw [List.map_map, List.map_map]
    rfl
  rw [kinds, map_fst_argumentVariables, List.map_map]
  simp only [Function.comp_def, ComputationalType.ofType_width]

namespace Instruction

/-- The instructions that load local variables. -/
def loads (places : List (ComputationalType × UInt16)) : List Instruction :=
  places.map fun (kind, index) => load kind index

/-- Loading all arguments puts them on the stack, the last one on top. -/
theorem runs_loads {limit first : Nat} {stack : OperandStack} {types : List FieldType}
    (room : stack.length + slots types ≤ limit) :
    Runs limit stack (loads (argumentVariables first types))
      ((argumentParts types).reverse ++ stack) := by
  induction types generalizing first stack with
  | nil => exact .nil stack
  | cons type types ih =>
      have pushed : (stack.push (.ofType type)).length = stack.length + type.width := by
        rw [OperandStack.length_push, ComputationalType.ofType_width, Nat.add_comm]
      rw [slots_cons, ← Nat.add_assoc, ← pushed] at room
      rw [argumentVariables_cons, argumentParts_cons, List.reverse_append, List.append_assoc]
      exact .cons rfl (Nat.le_of_add_right_le room) (ih room)

/-- A load only puts a value on the stack. -/
theorem map_flow_loads (first : Nat) (types : List FieldType) :
    (loads (argumentVariables first types)).map flow
      = (types.map fun type => SlotFlow.mk 0 type.width).map Except.ok := by
  have kinds : (loads (argumentVariables first types)).map flow
      = ((argumentVariables first types).map Prod.fst).map fun kind => .ok ⟨0, kind.width⟩ := by
    rw [loads, List.map_map, List.map_map]
    rfl
  rw [kinds, map_fst_argumentVariables, List.map_map, List.map_map]
  simp only [Function.comp_def, ComputationalType.ofType_width]

end Instruction

/-! ## The effect of the loads -/

namespace StackEffect

theorem push_aggregate_push (first second : Nat) :
    (push first).aggregate (push second) = push (first + second) := by
  simp only [push, aggregate, StackEffect.mk.injEq]
  omega

/-- Putting all arguments on the stack, one after the other, puts all their slots on it. -/
theorem foldl_push_width (before : Nat) (types : List FieldType) :
    (types.map fun type => push type.width).foldl aggregate (push before)
      = push (before + slots types) := by
  induction types generalizing before with
  | nil => rfl
  | cons type types ih =>
      rw [List.map_cons, List.foldl_cons, push_aggregate_push, ih, slots_cons, Nat.add_assoc]

end StackEffect

end JvmCode
