import JvmCode.Instruction.Basic
import JvmCode.StackEffect.Basic
/-!
# Stack manipulations

A manipulation is a unit of emission with a known effect on the operand stack. A
`Primitive` delivers at most one instruction; a `Manipulation` is a tree whose leaves are
primitives and whose inner nodes are compounds, sequences to be applied in order.

A manipulation can be *invalid*: it then stands for code that cannot be generated. A
compound is invalid as soon as one of its parts is.

## Main results

* `Manipulation.isValid_compound` — a compound is valid exactly when all its parts are.
-/

namespace JvmCode

/-- The class that code is generated for. -/
structure TargetClass where
  name : BinaryName
  version : ClassVersion
  deriving DecidableEq

/-! ## Duplications -/

/-- The group of slots that a value of the size takes; no value takes none. -/
def ValueSize.group? : ValueSize → Option SlotGroup
  | .zero => none
  | .single => some .one
  | .double => some .two

/-- Duplication of the value on top of the stack. -/
inductive Duplication
  | plain (value : ValueSize)
  /-- The copy goes below the value under the duplicated one. -/
  | flipOver (value under : ValueSize)
  deriving DecidableEq, Hashable

namespace Duplication

/-- Size of the duplicated value. -/
def valueSize : Duplication → ValueSize
  | plain value => value
  | flipOver value _ => value

/-- Values without slots cannot be flipped, nor flipped over. -/
def isValid : Duplication → Bool
  | plain _ => true
  | flipOver value under => value != .zero && under != .zero

/-- The duplication of the same value with the copy below another one, if there is
something to flip over. -/
def flipOver? (duplication : Duplication) (under : ValueSize) : Option Duplication :=
  if duplication = plain .zero ∨ under = .zero then none
  else some (flipOver duplication.valueSize under)

/-- The instruction of a duplication; duplicating no value takes none. -/
def instruction? : Duplication → Option Instruction
  | plain value => value.group?.map fun group => .dup group .zero
  | flipOver value under =>
    if under = .zero then none else value.group?.map fun group => .dup group under

end Duplication

/-! ## Calling a method handle -/

/-- Exact invocation of a method handle. The handle and the arguments are on the stack; the
descriptor of the call is that of the method type, not the one the method is declared with. -/
structure HandleInvocation where
  methodType : MethodType
  deriving DecidableEq, Hashable

namespace HandleInvocation

/-- The call that invokes the handle. -/
def call (invocation : HandleInvocation) : MethodCall where
  kind := .virtual
  owner := .methodHandle
  name := .invokeExact
  descriptor := invocation.methodType.descriptor
  isInterface := false

/-- One instruction takes the arguments and leaves the result, so the peak is the net
change where that is positive. The handle itself is not counted. -/
def effect (invocation : HandleInvocation) : StackEffect :=
  let impact : Int :=
    (invocation.methodType.returnSlots : Int) - invocation.methodType.parameterSlots
  ⟨impact, impact.toNat⟩

/-- The invocation in words. -/
def describe (invocation : HandleInvocation) : String :=
  "HandleInvocation\x7bmethodType=" ++ invocation.methodType.descriptor ++ "\x7d"

theorem sound_effect (invocation : HandleInvocation) : invocation.effect.Sound :=
  Int.self_le_toNat _

end HandleInvocation

/-! ## Primitives -/

/-- A manipulation that delivers at most one instruction. -/
inductive Primitive
  /-- Does nothing. -/
  | trivial
  /-- Stands for code that cannot be generated. -/
  | illegal
  | int (value : Int32)
  | long (value : Int64)
  | float (value : Binary32)
  | double (value : Binary64)
  | null
  | text (value : String)
  | methodType (value : MethodType)
  | duplicate (duplication : Duplication)
  | remove (size : ValueSize)
  | load (kind : ComputationalType) (index : UInt16)
  | store (kind : ComputationalType) (index : UInt16)
  | ret (kind : ReturnKind)
  | invokeHandle (invocation : HandleInvocation)
  deriving DecidableEq

namespace Primitive

/-- The primitive can be applied. -/
def isValid : Primitive → Bool
  | illegal => false
  | duplicate duplication => duplication.isValid
  | _ => true

/-- What the primitive does to the stack. -/
def effect : Primitive → StackEffect
  | trivial | illegal => .none
  | int _ | float _ | null | text _ | methodType _ => .push 1
  | long _ | double _ => .push 2
  | duplicate duplication => duplication.valueSize.pushed
  | remove size => size.popped
  | load kind _ => kind.size.pushed
  | store kind _ => kind.size.popped
  | ret kind => kind.size.popped
  | invokeHandle invocation => invocation.effect

theorem sound_effect (primitive : Primitive) : primitive.effect.Sound := by
  cases primitive with
  | invokeHandle invocation => exact invocation.sound_effect
  | trivial | illegal => exact StackEffect.sound_none
  | remove _ | store _ _ | ret _ => exact StackEffect.sound_pop _
  | _ => exact StackEffect.sound_push _

/-! ### Constants -/

/-- The shortest instruction that pushes an `int`. -/
def intInstruction (value : Int32) : Instruction :=
  let n := value.toInt
  if h : -1 ≤ n ∧ n ≤ 5 then .iconst ⟨(n + 1).toNat, by omega⟩
  else if -128 ≤ n ∧ n ≤ 127 then .bipush (Int8.ofInt n)
  else if -32768 ≤ n ∧ n ≤ 32767 then .sipush (Int16.ofInt n)
  else .ldc (.integer value)

/-- The instruction that pushes a `long`. -/
def longInstruction (value : Int64) : Instruction :=
  if value = 0 then .lconst 0 else if value = 1 then .lconst 1 else .ldc (.long value)

/-- The instruction that pushes a `float`. Only the positive zero has a short form. -/
def floatInstruction (value : Binary32) : Instruction :=
  if value = .zero then .fconst 0
  else if value = .one then .fconst 1
  else if value = .two then .fconst 2
  else .ldc (.float value)

/-- The instruction that pushes a `double`. Only the positive zero has a short form. -/
def doubleInstruction (value : Binary64) : Instruction :=
  if value = .zero then .dconst 0 else if value = .one then .dconst 1 else .ldc (.double value)

/-! ### What is delivered -/

/-- What a primitive hands to the sink. -/
inductive Delivery
  | nothing
  | instruction (delivered : Instruction)
  | call (delivered : MethodCall)
  deriving DecidableEq

/-- At most one instruction. -/
def Delivery.ofInstruction? : Option Instruction → Delivery
  | none => .nothing
  | some delivered => .instruction delivered

/-- What the primitive hands to the sink in a class. Method types cannot be loaded before
version 51. -/
def delivery (target : TargetClass) : Primitive → Except EmitError Delivery
  | trivial => .ok .nothing
  | illegal => .error .illegalManipulation
  | int value => .ok (.instruction (intInstruction value))
  | long value => .ok (.instruction (longInstruction value))
  | float value => .ok (.instruction (floatInstruction value))
  | double value => .ok (.instruction (doubleInstruction value))
  | null => .ok (.instruction .aconstNull)
  | text value => .ok (.instruction (.ldc (.string value)))
  | methodType value =>
    if target.version < .java7 then
      .error (.unsupportedConstant ("MethodType " ++ value.descriptor) target.version)
    else .ok (.instruction (.ldc (.methodType value.descriptor)))
  | duplicate duplication =>
    if duplication.isValid then .ok (.ofInstruction? duplication.instruction?)
    else .error .illegalManipulation
  | remove size => .ok (.ofInstruction? (size.group?.map .pop))
  | load kind index => .ok (.instruction (.load kind index))
  | store kind index => .ok (.instruction (.store kind index))
  | ret kind => .ok (.instruction (.ret kind))
  | invokeHandle invocation => .ok (.call invocation.call)

end Primitive

/-! ## Trees of manipulations -/

/-- A primitive, or a sequence of manipulations to be applied in order. A manipulation can also be
lent or boxed; a reference to it or a box around it does what it does and nothing else, so either is
the manipulation itself, and no further kind of node is needed. -/
inductive Manipulation
  | step (primitive : Primitive)
  | compound (parts : List Manipulation)

namespace Manipulation

instance : Inhabited Manipulation := ⟨compound []⟩

mutual

/-- The manipulation can be applied. -/
def isValid : Manipulation → Bool
  | step primitive => primitive.isValid
  | compound parts => allValid parts

/-- All the manipulations can be applied. -/
def allValid : List Manipulation → Bool
  | [] => true
  | part :: parts => part.isValid && allValid parts

end

theorem allValid_eq_all (parts : List Manipulation) : allValid parts = parts.all isValid := by
  induction parts with
  | nil => simp [allValid]
  | cons part parts ih => simp [allValid, ih]

theorem isValid_compound (parts : List Manipulation) :
    (compound parts).isValid = true ↔ ∀ part ∈ parts, part.isValid = true := by
  simp [isValid, allValid_eq_all]

/-! ### Loading arguments -/

/-- Loads of the parameters from consecutive local variables, after the parts made before.
The list ends with an illegal part where a parameter starts past the last local variable. -/
def argumentLoads (done : Array Manipulation) (index : Nat) :
    List FieldType → List Manipulation
  | [] => done.toList
  | type :: types =>
    if index ≤ 65535 then
      argumentLoads (done.push (step (.load (.ofType type) (UInt16.ofNat index))))
        (index + type.width) types
    else (done.push (step .illegal)).toList

/-- Loads every parameter of a method type, from the given local variable on. -/
def allArguments (type : MethodType) (first : UInt16) : Manipulation :=
  compound (argumentLoads #[] first.toNat type.parameters)

theorem argumentLoads_eq (done : Array Manipulation) (index : Nat) (types : List FieldType) :
    argumentLoads done index types = done.toList ++ argumentLoads #[] index types := by
  induction types generalizing done index with
  | nil => simp [argumentLoads]
  | cons type types ih =>
    simp only [argumentLoads]
    split
    · rw [ih, ih (#[].push _)]
      simp
    · simp

end Manipulation

end JvmCode
