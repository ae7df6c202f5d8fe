import JvmCode.Descriptor.Basic
/-!
# Sizes and kinds of values

On operand stacks and in local variables only two things matter about a type: how many
slots its values take (`ValueSize`), and which of the five *computational types* they
are handled as (`ComputationalType`): `boolean`, `byte`, `char` and `short` are all
handled as `int`, and every class and array as a reference.

## Main results

* `ValueSize.ofType_slots`, `ComputationalType.ofType_size` — both views agree with the
  width of the type they come from.
-/

namespace JvmCode

/-! ## Sizes -/

/-- How many slots a value takes; `zero` is the size of no value at all. -/
inductive ValueSize
  | zero | single | double
  deriving DecidableEq, Hashable

namespace ValueSize

/-- The size in slots. -/
def slots : ValueSize → Nat
  | zero => 0
  | single => 1
  | double => 2

/-- The smallest size with room for so many slots, of those a value can have. -/
def ofSlots : Nat → ValueSize
  | 0 => zero
  | 1 => single
  | _ => double

/-- Size of a value of the type, where `none` is `void`. -/
def ofType : Option FieldType → ValueSize
  | none => zero
  | some type => ofSlots type.width

instance : Max ValueSize where
  max a b := if a.slots < b.slots then b else a

theorem ofType_slots (type : FieldType) : (ofType (some type)).slots = type.width := by
  cases type with
  | base b => cases b <;> rfl
  | object _ => rfl
  | array _ => rfl

end ValueSize

/-! ## Computational types -/

/-- The types that load, store and return instructions tell apart. -/
inductive ComputationalType
  | int | long | float | double | reference
  deriving DecidableEq, Hashable

namespace ComputationalType

/-- How values of the type are handled. -/
def ofType : FieldType → ComputationalType
  | .base .long => long
  | .base .float => float
  | .base .double => double
  | .base _ => int
  | .object _ | .array _ => reference

/-- The size of a value. -/
def size : ComputationalType → ValueSize
  | long | double => .double
  | int | float | reference => .single

/-- Slots taken by a value. -/
def width (kind : ComputationalType) : Nat := kind.size.slots

theorem ofType_size (type : FieldType) : (ofType type).size = ValueSize.ofType (some type) := by
  cases type with
  | base b => cases b <;> rfl
  | object _ => rfl
  | array _ => rfl

theorem ofType_width (type : FieldType) : (ofType type).width = type.width := by
  rw [width, ofType_size, ValueSize.ofType_slots]

end ComputationalType

/-- What a method returns: a value of a computational type, or nothing. -/
abbrev ReturnKind := Option ComputationalType

namespace ReturnKind

/-- How the values of a return type are handled, where `none` is `void`. -/
def ofType (returned : Option FieldType) : ReturnKind := returned.map ComputationalType.ofType

/-- The size of what is returned. -/
def size : ReturnKind → ValueSize
  | none => .zero
  | some kind => kind.size

theorem size_ofType (returned : Option FieldType) :
    (ofType returned).size = ValueSize.ofType returned := by
  cases returned with
  | none => rfl
  | some type => exact ComputationalType.ofType_size type

end ReturnKind

end JvmCode
