import JvmCode.OperandStack
import JvmCode.Proofs.Manipulation.Delivery
import JvmCode.Proofs.Sink.Acceptance
/-!
# Constants that are pushed

A constant is pushed by one instruction, which holds it itself or names its place in the pool
(`Instruction.constant?`). Few constants have an instruction that holds them (`PoolFree`). A
primitive for a constant chooses a shortest instruction of these, and the pool otherwise. The choice
is settled kind by kind (`Suits`); what comes of it does not depend on the kind any more.

Among the zeros and NaNs only one pattern is free of the pool, the positive zero.

## Main results

* `request?_eq_none_or_eq_ldc`: where the constant of an instruction comes from.
* `floatInstruction_eq`, `doubleInstruction_eq`: comparing values would make no difference.
* `suits_of_delivery`: the instruction of a primitive, kind by kind.
* `apply_constant`: what is written for a constant, and what it does to the pool.
-/

namespace JvmCode

open ConstantPool

/-! ## What instructions push -/

namespace Instruction

/-- The constant that an instruction pushes. Short operands are extended with their sign. -/
def constant? : Instruction → Option Loadable
  | iconst successor => some (.integer (Int32.ofInt (successor.val - 1)))
  | bipush value => some (.integer value.toInt32)
  | sipush value => some (.integer value.toInt32)
  | lconst value => some (.long (Int64.ofNat value))
  | fconst value => some (.float (match value with | 0 => .zero | 1 => .one | 2 => .two))
  | dconst value => some (.double (match value with | 0 => .zero | 1 => .one))
  | ldc constant => some constant
  | _ => none

variable {instruction : Instruction} {value : Loadable}

/-- Pushing a constant puts a value of its kind on top of the stack. -/
theorem step?_of_constant? (pushes : instruction.constant? = some value) (stack : OperandStack) :
    instruction.step? stack = some (stack.push value.kind) := by
  cases instruction with
  | iconst | bipush | sipush | lconst | fconst | dconst | ldc =>
      cases pushes
      rfl
  | _ => cases pushes

theorem one_le_length (instruction : Instruction) (place : PoolIndex) :
    1 ≤ instruction.length place := by
  cases instruction with
  | load | store =>
      simp only [length, accessLength]
      split
      · decide
      · split <;> decide
  | ldc | invoke =>
      simp only [length]
      split <;> decide
  | bipush | sipush => simp only [length, Nat.reduceLeDiff]
  | _ => exact Nat.le_refl 1

end Instruction

/-! ## Constants that need no pool -/

/-- The constant is one of those that an instruction can hold. -/
def Loadable.PoolFree : Loadable → Prop
  | integer value => -32768 ≤ value.toInt ∧ value.toInt ≤ 32767
  | long value => value = 0 ∨ value = 1
  | float value => value = .zero ∨ value = .one ∨ value = .two
  | double value => value = .zero ∨ value = .one
  | string _ | methodType _ => False

namespace Instruction

variable {instruction : Instruction} {value : Loadable}

/-- The `int` instructions that hold their operand, by its range. -/
theorem range_of_constant? {n : Int32} (pushes : instruction.constant? = some (.integer n))
    (free : instruction.request? = none) (place : PoolIndex) :
    -1 ≤ n.toInt ∧ n.toInt ≤ 5 ∧ instruction.length place = 1 ∨
    -128 ≤ n.toInt ∧ n.toInt ≤ 127 ∧ instruction.length place = 2 ∨
    -32768 ≤ n.toInt ∧ n.toInt ≤ 32767 ∧ instruction.length place = 3 := by
  cases instruction with
  | iconst successor =>
      cases pushes
      have small := successor.isLt
      rw [Int32.toInt_ofInt_of_le (by omega) (by omega)]
      exact .inl ⟨by omega, by omega, rfl⟩
  | bipush operand =>
      cases pushes
      have low := operand.le_toInt
      have high := operand.toInt_lt
      rw [Int8.toInt_toInt32]
      exact .inr (.inl ⟨by omega, by omega, rfl⟩)
  | sipush operand =>
      cases pushes
      have low := operand.le_toInt
      have high := operand.toInt_lt
      rw [Int16.toInt_toInt32]
      exact .inr (.inr ⟨by omega, by omega, rfl⟩)
  | ldc => cases free
  | _ => cases pushes

/-- A constant that is pushed without a pool is free of it. -/
theorem poolFree_of_constant? (pushes : instruction.constant? = some value)
    (free : instruction.request? = none) : value.PoolFree := by
  cases instruction with
  | iconst | bipush | sipush =>
      cases pushes
      show -32768 ≤ _ ∧ _ ≤ 32767
      rcases range_of_constant? rfl free ⟨0⟩ with range | range | range <;> omega
  | lconst operand =>
      cases pushes
      match operand with
      | 0 => exact .inl rfl
      | 1 => exact .inr rfl
  | fconst operand =>
      cases pushes
      match operand with
      | 0 => exact .inl rfl
      | 1 => exact .inr (.inl rfl)
      | 2 => exact .inr (.inr rfl)
  | dconst operand =>
      cases pushes
      match operand with
      | 0 => exact .inl rfl
      | 1 => exact .inr rfl
  | ldc => cases free
  | _ => cases pushes

/-- The constant is in the instruction or in the pool. -/
theorem request?_eq_none_or_eq_ldc (pushes : instruction.constant? = some value) :
    instruction.request? = none ∨ instruction = .ldc value := by
  cases instruction with
  | ldc =>
      cases pushes
      exact .inr rfl
  | invoke => cases pushes
  | _ => exact .inl rfl

/-! ## The choice of an instruction -/

/-- The instruction pushes the constant, without the pool if it can be, and then in as few bytes
as any other. -/
structure Suits (instruction : Instruction) (value : Loadable) : Prop where
  pushes : instruction.constant? = some value
  free : value.PoolFree → instruction.request? = none
  shortest : ∀ other : Instruction, other.constant? = some value → other.request? = none →
    ∀ place, instruction.length place ≤ other.length place

/-- Only the pool is left for a constant that is not free of it. -/
theorem suits_ldc (bound : ¬ value.PoolFree) : Suits (.ldc value) value where
  pushes := rfl
  free isFree := absurd isFree bound
  shortest _ pushes free := absurd (poolFree_of_constant? pushes free) bound

/-- No instruction is shorter than one byte. -/
theorem suits_of_length (pushes : instruction.constant? = some value)
    (free : instruction.request? = none) (short : ∀ place, instruction.length place = 1) :
    Suits instruction value where
  pushes := pushes
  free _ := free
  shortest other _ _ place := by
    rw [short]
    exact one_le_length other place

end Instruction

/-! ## Comparing values -/

namespace FloatFormat

/-- To compare equal to a number other than the zeros is to be the same. -/
theorem ieeeEq_iff_eq (format : FloatFormat) {a b : Nat} (isNumber : format.isNaN b = false)
    (nonzero : format.isZero b = false) : format.ieeeEq a b = true ↔ a = b := by
  rw [ieeeEq, nonzero, Bool.and_false, Bool.or_false, isNumber]
  constructor
  · intro equal
    simp only [Bool.and_eq_true, beq_iff_eq] at equal
    exact equal.2
  · rintro rfl
    simp only [isNumber, Bool.not_false, Bool.and_self, beq_self_eq_true]

end FloatFormat

theorem Binary32.ieeeEq_iff_eq {a b : Binary32}
    (isNumber : binary32Format.isNaN b.bits.toNat = false)
    (nonzero : binary32Format.isZero b.bits.toNat = false) : a.ieeeEq b = true ↔ a = b := by
  rw [ieeeEq, FloatFormat.ieeeEq_iff_eq _ isNumber nonzero, UInt32.toNat_inj]
  exact ⟨fun same => congrArg mk same, fun same => congrArg bits same⟩

theorem Binary64.ieeeEq_iff_eq {a b : Binary64}
    (isNumber : binary64Format.isNaN b.bits.toNat = false)
    (nonzero : binary64Format.isZero b.bits.toNat = false) : a.ieeeEq b = true ↔ a = b := by
  rw [ieeeEq, FloatFormat.ieeeEq_iff_eq _ isNumber nonzero, UInt64.toNat_inj]
  exact ⟨fun same => congrArg mk same, fun same => congrArg bits same⟩

namespace Primitive

/-- Only for the zero it matters that bits are compared. -/
theorem floatInstruction_eq (value : Binary32) :
    floatInstruction value
      = if value = .zero then .fconst 0
        else if value.ieeeEq .one then .fconst 1
        else if value.ieeeEq .two then .fconst 2
        else .ldc (.float value) := by
  have isOne : value.ieeeEq .one = true ↔ value = .one :=
    Binary32.ieeeEq_iff_eq (by decide) (by decide)
  have isTwo : value.ieeeEq .two = true ↔ value = .two :=
    Binary32.ieeeEq_iff_eq (by decide) (by decide)
  simp only [floatInstruction, isOne, isTwo]

theorem doubleInstruction_eq (value : Binary64) :
    doubleInstruction value
      = if value = .zero then .dconst 0
        else if value.ieeeEq .one then .dconst 1
        else .ldc (.double value) := by
  have isOne : value.ieeeEq .one = true ↔ value = .one :=
    Binary64.ieeeEq_iff_eq (by decide) (by decide)
  simp only [doubleInstruction, isOne]

/-! ## The instructions of primitives -/

open Instruction

/-- The constant that a primitive is there to push. -/
def constant? : Primitive → Option Loadable
  | int value => some (.integer value)
  | long value => some (.long value)
  | float value => some (.float value)
  | double value => some (.double value)
  | text value => some (.string value)
  | methodType value => some (.methodType value.descriptor)
  | _ => none

theorem suits_intInstruction (value : Int32) :
    (intInstruction value).Suits (.integer value) := by
  unfold intInstruction
  by_cases tiny : -1 ≤ value.toInt ∧ value.toInt ≤ 5
  · rw [dif_pos tiny]
    refine suits_of_length ?_ rfl fun _ => rfl
    have same : ((value.toInt + 1).toNat : Int) - 1 = value.toInt := by omega
    simp only [Instruction.constant?, same, Int32.ofInt_toInt]
  rw [dif_neg tiny]
  by_cases byte : -128 ≤ value.toInt ∧ value.toInt ≤ 127
  · have same : (Int8.ofInt value.toInt).toInt32.toInt = value.toInt :=
      (Int8.toInt_toInt32 _).trans (Int8.toInt_ofInt_of_le (by omega) (by omega))
    rw [if_pos byte]
    refine ⟨?_, fun _ => rfl, fun other pushes free place => ?_⟩
    · rw [Instruction.constant?, Int32.toInt_inj.mp same]
    · show 2 ≤ _
      rcases range_of_constant? pushes free place with range | range | range <;> omega
  by_cases short : -32768 ≤ value.toInt ∧ value.toInt ≤ 32767
  · have same : (Int16.ofInt value.toInt).toInt32.toInt = value.toInt :=
      (Int16.toInt_toInt32 _).trans (Int16.toInt_ofInt_of_le (by omega) (by omega))
    rw [if_neg byte, if_pos short]
    refine ⟨?_, fun _ => rfl, fun other pushes free place => ?_⟩
    · rw [Instruction.constant?, Int32.toInt_inj.mp same]
    · show 3 ≤ _
      rcases range_of_constant? pushes free place with range | range | range <;> omega
  · rw [if_neg byte, if_neg short]
    exact suits_ldc short

theorem suits_longInstruction (value : Int64) : (longInstruction value).Suits (.long value) := by
  unfold longInstruction
  by_cases isZero : value = 0
  · rw [if_pos isZero, isZero]
    exact suits_of_length rfl rfl fun _ => rfl
  by_cases isOne : value = 1
  · rw [if_neg isZero, if_pos isOne, isOne]
    exact suits_of_length rfl rfl fun _ => rfl
  · rw [if_neg isZero, if_neg isOne]
    exact suits_ldc (not_or.mpr ⟨isZero, isOne⟩)

theorem suits_floatInstruction (value : Binary32) :
    (floatInstruction value).Suits (.float value) := by
  unfold floatInstruction
  by_cases isZero : value = .zero
  · rw [if_pos isZero, isZero]
    exact suits_of_length rfl rfl fun _ => rfl
  by_cases isOne : value = .one
  · rw [if_neg isZero, if_pos isOne, isOne]
    exact suits_of_length rfl rfl fun _ => rfl
  by_cases isTwo : value = .two
  · rw [if_neg isZero, if_neg isOne, if_pos isTwo, isTwo]
    exact suits_of_length rfl rfl fun _ => rfl
  · rw [if_neg isZero, if_neg isOne, if_neg isTwo]
    exact suits_ldc (not_or.mpr ⟨isZero, not_or.mpr ⟨isOne, isTwo⟩⟩)

theorem suits_doubleInstruction (value : Binary64) :
    (doubleInstruction value).Suits (.double value) := by
  unfold doubleInstruction
  by_cases isZero : value = .zero
  · rw [if_pos isZero, isZero]
    exact suits_of_length rfl rfl fun _ => rfl
  by_cases isOne : value = .one
  · rw [if_neg isZero, if_pos isOne, isOne]
    exact suits_of_length rfl rfl fun _ => rfl
  · rw [if_neg isZero, if_neg isOne]
    exact suits_ldc (not_or.mpr ⟨isZero, isOne⟩)

/-- A primitive for a constant that can be applied delivers an instruction that suits it. -/
theorem suits_of_delivery {target : TargetClass} {primitive : Primitive} {value : Loadable}
    {handed : Delivery} (isConstant : primitive.constant? = some value)
    (delivered : primitive.delivery target = .ok handed) :
    ∃ instruction, handed = .instruction instruction ∧ Suits instruction value := by
  cases primitive with
  | int value =>
      cases isConstant
      cases delivered
      exact ⟨_, rfl, suits_intInstruction value⟩
  | long value =>
      cases isConstant
      cases delivered
      exact ⟨_, rfl, suits_longInstruction value⟩
  | float value =>
      cases isConstant
      cases delivered
      exact ⟨_, rfl, suits_floatInstruction value⟩
  | double value =>
      cases isConstant
      cases delivered
      exact ⟨_, rfl, suits_doubleInstruction value⟩
  | text value =>
      cases isConstant
      cases delivered
      exact ⟨_, rfl, suits_ldc fun isFree => isFree⟩
  | methodType value =>
      cases isConstant
      rw [delivery] at delivered
      split at delivered
      · cases delivered
      · cases delivered
        exact ⟨_, rfl, suits_ldc fun isFree => isFree⟩
  | _ => cases isConstant

end Primitive

/-! ## What is written -/

open Instruction

namespace Manipulation

variable {target : TargetClass} {primitive : Primitive} {value : Loadable}
  {start after : Assembler} {log : Array LogRecord} {declared : StackEffect}

/-- A primitive for a constant that was applied has had a suitable instruction encoded. -/
theorem exists_encode_of_constant (isConstant : primitive.constant? = some value)
    (applied : Emission.outcome (apply target (step primitive) ⟨start, log⟩)
      = (after, .ok declared)) :
    ∃ (instruction : Instruction) (bytes : List UInt8), instruction.Suits value ∧
      instruction.encode start.pool = .ok bytes after.pool ∧ after.code = start.code ++ bytes := by
  obtain ⟨state, succeeded, rfl⟩ := Emission.outcome_eq_ok_iff.mp applied
  rw [apply_step] at succeeded
  obtain ⟨_, delivered, handed, _⟩ := Primitive.apply_eq_ok_iff.mp succeeded
  obtain ⟨instruction, rfl, suits⟩ := Primitive.suits_of_delivery isConstant delivered
  have taken : Emission.hand (.instruction instruction) ⟨start, log⟩ = .ok () state := handed
  obtain ⟨accepted, rfl⟩ := Emission.hand_eq_ok_iff.mp taken
  obtain ⟨bytes, pool, encoded, isSink⟩ := Assembler.exists_encode_of_accepted accepted
  have isPool : ((Visit.instruction instruction).hand start).sink.pool = pool :=
    congrArg Assembler.pool isSink
  have isCode : ((Visit.instruction instruction).hand start).sink.code = start.code ++ bytes :=
    congrArg Assembler.code isSink
  exact ⟨instruction, bytes, suits, isPool ▸ encoded, isCode⟩

/-- A suitable instruction changes the pool just for a constant that is neither free of it nor in
it. -/
theorem pool_unchanged_iff {instruction : Instruction} {pool grown : ConstantPool}
    {bytes : List UInt8} (h : pool.Consistent) (suits : instruction.Suits value)
    (encoded : instruction.encode pool = .ok bytes grown) :
    grown = pool ↔
      value.PoolFree ∨ ∃ index, pool.follow? index = some value.request.resolved := by
  obtain ⟨place, placed, _⟩ := exists_placed_of_encode encoded
  rcases request?_eq_none_or_eq_ldc suits.pushes with free | rfl
  · have isFree : value.PoolFree := poolFree_of_constant? suits.pushes free
    rw [Placed, free] at placed
    exact ⟨fun _ => .inl isFree, fun _ => placed⟩
  · have resolved : resolve value.request pool = .ok place grown := placed
    constructor
    · rintro rfl
      obtain ⟨_, _, found⟩ := (resolve_answers h value.request).of_ok resolved
      exact .inr ⟨place, found⟩
    · rintro (isFree | ⟨index, found⟩)
      · cases suits.free isFree
      · rw [resolve_of_follow? h found] at resolved
        cases resolved
        rfl

/-- **Pushing a constant.** Let a primitive for an `int`, a `long`, a `float` or `double` of any
pattern, a text or a method type be applied to an assembler in any use, successfully. The code grows
by the bytes of one instruction. Read back with the pool as it is then, it pushes the constant
itself, bit by bit, as a value of its kind. The pool is as before if and only if the constant is
free of it, or was in it already. No instruction that pushes the same constant without a pool takes
fewer bytes. -/
theorem apply_constant (isConstant : primitive.constant? = some value)
    (reachable : start.Reachable)
    (applied : Emission.outcome (apply target (step primitive) ⟨start, log⟩)
      = (after, .ok declared)) :
    ∃ (bytes : List UInt8) (instruction : Instruction),
      after.code = start.code ++ bytes ∧
      decodeAll after.pool bytes = some [instruction] ∧
      instruction.constant? = some value ∧
      (∀ stack : OperandStack, instruction.step? stack = some (stack.push value.kind)) ∧
      (after.pool = start.pool ↔
        value.PoolFree ∨ ∃ index, start.pool.follow? index = some value.request.resolved) ∧
      ∀ (other : Instruction) (pool grown : ConstantPool) (others : List UInt8),
        other.constant? = some value → other.request? = none →
        other.encode pool = .ok others grown → bytes.length ≤ others.length := by
  obtain ⟨instruction, bytes, suits, encoded, isCode⟩ :=
    exists_encode_of_constant isConstant applied
  obtain ⟨_, _, encodes⟩ := (encode_answers reachable.consistent instruction).of_ok encoded
  have decoded : decodeAll after.pool bytes = some [instruction] := by
    have codes : Codes after.pool [instruction] (bytes ++ []) := .cons encodes .nil
    rw [List.append_nil] at codes
    exact codes.decodeAll_eq
  refine ⟨bytes, instruction, isCode, decoded, suits.pushes, step?_of_constant? suits.pushes,
    pool_unchanged_iff reachable.consistent suits encoded, ?_⟩
  intro other pool grown others pushes free otherEncoded
  obtain ⟨place, _, isLength⟩ := exists_placed_of_encode encoded
  obtain ⟨otherPlace, placed, isOtherLength⟩ := exists_placed_of_encode otherEncoded
  have anyPlace : other.length otherPlace = other.length place := by
    cases other with
    | ldc | invoke => cases free
    | _ => rfl
  rw [isLength, isOtherLength, anyPlace]
  exact suits.shortest other pushes free place

/-- The negative zero is loaded from the pool, in all its bits. -/
theorem apply_constant_negativeZero :
    let target : TargetClass := ⟨.object, .java7⟩
    let negativeZero : Binary32 := ⟨0x80000000⟩
    let first := Emission.outcome (apply target (step (.float negativeZero)) ⟨Assembler.empty, #[]⟩)
    first.2 = .ok (.push 1) ∧ first.1.code = #[0x12, 1] ∧ first.1.pool ≠ ∅ ∧
      ∃ instruction, decodeAll first.1.pool [0x12, 1] = some [instruction] ∧
        instruction.constant? = some (.float negativeZero) := by
  intro target negativeZero first
  have answer : first.2 = .ok (.push 1) := by
    unfold first target negativeZero
    cbv
  have code : first.1.code = #[0x12, 1] := by
    unfold first target negativeZero
    cbv
  have size : first.1.pool.size = 1 := by
    unfold first target negativeZero
    cbv
  have reachable : Assembler.empty.Reachable := ⟨[], [], rfl⟩
  have applied : first = (first.1, .ok (.push 1)) := by rw [← answer]
  have isConstant : (Primitive.float negativeZero).constant? = some (.float negativeZero) := rfl
  obtain ⟨bytes, instruction, isCode, decoded, pushes, _⟩ :=
    apply_constant isConstant reachable applied
  have isBytes : bytes = [0x12, 1] := by
    have list := congrArg Array.toList (isCode.symm.trans code)
    rw [Array.toList_appendList] at list
    exact list
  subst isBytes
  refine ⟨answer, code, fun unchanged => ?_, instruction, decoded, pushes⟩
  rw [unchanged] at size
  cases size

end Manipulation

end JvmCode
