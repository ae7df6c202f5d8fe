import JvmCode.EmitError
import JvmCode.ValueSize
/-!
# Instructions

The straight-line part of the instruction set: constants, local variables, the stack
operations, returns and method calls. One constructor covers all encodings of an
instruction that differ only in the width of an operand: which of them is written follows
from the operand.

## Main results

* `Instruction.ieeeEq_of_eq` — instructions without a NaN operand that are the same
  compare equal.
-/

namespace JvmCode

/-! ## Operands -/

/-- A constant that one instruction can load from the constant pool. -/
inductive Loadable
  | integer (value : Int32)
  | float (value : Binary32)
  | long (value : Int64)
  | double (value : Binary64)
  | string (text : String)
  /-- The method type with this descriptor. -/
  | methodType (descriptor : String)
  deriving DecidableEq

namespace Loadable

/-- Slots taken by the loaded value. -/
def width : Loadable → Nat
  | long _ | double _ => 2
  | _ => 1

/-- The pool entry that holds the constant. -/
def request : Loadable → PoolRequest
  | integer value => .integer value
  | float value => .float value
  | long value => .long value
  | double value => .double value
  | string text => .string text
  | methodType descriptor => .methodType descriptor

/-- Equality where floating point constants compare as the values they stand for. -/
def ieeeEq : Loadable → Loadable → Bool
  | float a, float b => a.ieeeEq b
  | double a, double b => a.ieeeEq b
  | a, b => a == b

end Loadable

/-- The kinds of method calls. -/
inductive InvokeKind
  | virtual | special | static | interface
  deriving DecidableEq, Hashable

/-- The call takes a receiver off the stack, below its arguments. -/
def InvokeKind.hasReceiver : InvokeKind → Bool
  | .static => false
  | _ => true

/-- A method call. The descriptor is any text: a sink that needs its structure reads it. -/
structure MethodCall where
  kind : InvokeKind
  owner : BinaryName
  name : UnqualifiedName
  descriptor : String
  isInterface : Bool
  deriving DecidableEq

namespace MethodCall

/-- The pool entry that the call refers to. -/
def request (call : MethodCall) : PoolRequest :=
  .methodRef call.owner call.name.text call.descriptor call.isInterface

end MethodCall

/-- The top one or two slots of the stack. -/
inductive SlotGroup
  | one | two
  deriving DecidableEq, Hashable

/-- How many slots are in the group. -/
def SlotGroup.slots : SlotGroup → Nat
  | .one => 1
  | .two => 2

/-! ## Instructions -/

/-- An instruction of straight-line code. -/
inductive Instruction
  | nop
  | aconstNull
  /-- Pushes the `int` that is one less than the operand. -/
  | iconst (successor : Fin 7)
  | lconst (value : Fin 2)
  | fconst (value : Fin 3)
  | dconst (value : Fin 2)
  | bipush (value : Int8)
  | sipush (value : Int16)
  | ldc (constant : Loadable)
  | load (kind : ComputationalType) (index : UInt16)
  | store (kind : ComputationalType) (index : UInt16)
  | pop (group : SlotGroup)
  /-- Copies the top slots and puts the copy below the slots of a value under them. -/
  | dup (copied : SlotGroup) (under : ValueSize)
  | swap
  | ret (kind : ReturnKind)
  | invoke (call : MethodCall)
  deriving DecidableEq

namespace Instruction

/-- Equality where floating point constants compare as the values they stand for. -/
def ieeeEq : Instruction → Instruction → Bool
  | ldc a, ldc b => a.ieeeEq b
  | a, b => a == b

/-- The instruction loads a constant that is not a number. -/
def loadsNaN : Instruction → Bool
  | ldc (.float value) => binary32Format.isNaN value.bits.toNat
  | ldc (.double value) => binary64Format.isNaN value.bits.toNat
  | _ => false

theorem ieeeEq_of_eq {a : Instruction} (h : a.loadsNaN = false) : a.ieeeEq a = true := by
  cases a with
  | ldc constant =>
    cases constant <;>
      simp_all [ieeeEq, Loadable.ieeeEq, loadsNaN, Binary32.ieeeEq, Binary64.ieeeEq,
        FloatFormat.ieeeEq]
  | _ => simp [ieeeEq]

end Instruction

end JvmCode
