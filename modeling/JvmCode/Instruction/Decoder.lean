import JvmCode.ByteReader
import JvmCode.ConstantPool.Lookup
import JvmCode.Instruction.Basic
/-!
# Decoding instructions

Instructions are read back from their bytes, where the places of constants and methods are
looked up in a constant pool. All forms of an instruction are known: the short, the normal
and the wide form of an access to a local variable, and both forms of loading a one-slot
constant. A call of an interface method must repeat the slots of its arguments.

## Main results

* `Loadable.ofResolved?_resolved`, `MethodCall.ofResolved?_resolved` — operands are found
  again from the constants that were requested for them.
* `decodeAll_nil`, `decodeAll_of_decode` — how code is read, one instruction after the other.
-/

namespace JvmCode

/-! ## Operands -/

/-- The loadable constant that a constant of a pool is. -/
def Loadable.ofResolved? : ResolvedConstant → Option Loadable
  | .integer value => some (.integer value)
  | .float value => some (.float value)
  | .long value => some (.long value)
  | .double value => some (.double value)
  | .string text => some (.string text)
  | .methodType descriptor => some (.methodType descriptor)
  | _ => none

theorem Loadable.ofResolved?_resolved (constant : Loadable) :
    ofResolved? constant.request.resolved = some constant := by
  cases constant <;> rfl

/-- The call of the kind that refers to a constant of a pool. -/
def MethodCall.ofResolved? (kind : InvokeKind) : ResolvedConstant → Option MethodCall
  | .methodRef owner name descriptor isInterface =>
    match BinaryName.ofString owner, UnqualifiedName.ofString name with
    | .ok owner, .ok name => some ⟨kind, owner, name, descriptor, isInterface⟩
    | _, _ => none
  | _ => none

theorem MethodCall.ofResolved?_resolved (call : MethodCall) :
    ofResolved? call.kind call.request.resolved = some call := by
  have owner := BinaryName.ofString_eq_ok_iff.2 (rfl : call.owner.text = call.owner.text)
  have name := UnqualifiedName.ofString_eq_ok_iff.2 (rfl : call.name.text = call.name.text)
  simp only [request, PoolRequest.resolved, ofResolved?, owner, name]

/-- The type at a place among the opcodes of a family. -/
def ComputationalType.ofOrdinal : Nat → ComputationalType
  | 0 => int
  | 1 => long
  | 2 => float
  | 3 => double
  | _ => reference

/-- The kind at a place among the opcodes of calls. -/
def InvokeKind.ofOrdinal : Nat → InvokeKind
  | 0 => .virtual
  | 1 => .special
  | 2 => .static
  | _ => .interface

namespace Instruction

/-! ## One instruction -/

/-- The constant at a place that is read, as an operand. -/
def readOperand {α : Type} (pool : ConstantPool) (place : ByteReader Nat)
    (ofResolved? : ResolvedConstant → Option α) : ByteReader α := do
  let index ← place
  match (pool.follow? ⟨UInt16.ofNat index⟩).bind ofResolved? with
  | some operand => return operand
  | none => failure

/-- Reads what repeats the slots of the arguments of a call, if it is one of an interface
method. -/
def readTrailer (call : MethodCall) : ByteReader Unit :=
  match call.kind with
  | .interface => do
    let count ← ByteReader.number 1
    let padding ← ByteReader.number 1
    match MethodType.parse call.descriptor with
    | .ok type => if count = 1 + type.parameterSlots ∧ padding = 0 then return () else failure
    | .error _ => failure
  | _ => return ()

/-- Reads an access to a local variable after its opcode, where the variable has an operand
of so many bytes. -/
def readAccess (opcode width : Nat) : ByteReader Instruction := do
  let index ← ByteReader.number width
  if 0x15 ≤ opcode ∧ opcode ≤ 0x19 then
    return load (.ofOrdinal (opcode - 0x15)) (UInt16.ofNat index)
  else if 0x36 ≤ opcode ∧ opcode ≤ 0x3A then
    return store (.ofOrdinal (opcode - 0x36)) (UInt16.ofNat index)
  else failure

/-- Reads what comes after an opcode. -/
def readOperands (pool : ConstantPool) (opcode : Nat) : ByteReader Instruction :=
  if opcode = 0x00 then return nop
  else if opcode = 0x01 then return aconstNull
  else if h : 0x02 ≤ opcode ∧ opcode ≤ 0x08 then return iconst ⟨opcode - 0x02, by omega⟩
  else if h : 0x09 ≤ opcode ∧ opcode ≤ 0x0A then return lconst ⟨opcode - 0x09, by omega⟩
  else if h : 0x0B ≤ opcode ∧ opcode ≤ 0x0D then return fconst ⟨opcode - 0x0B, by omega⟩
  else if h : 0x0E ≤ opcode ∧ opcode ≤ 0x0F then return dconst ⟨opcode - 0x0E, by omega⟩
  else if opcode = 0x10 then
    (fun n => bipush (UInt8.ofNat n).toInt8) <$> ByteReader.number 1
  else if opcode = 0x11 then
    (fun n => sipush (UInt16.ofNat n).toInt16) <$> ByteReader.number 2
  else if 0x12 ≤ opcode ∧ opcode ≤ 0x14 then do
    let constant ← readOperand pool (ByteReader.number (if opcode = 0x12 then 1 else 2))
      Loadable.ofResolved?
    if (opcode = 0x14) = (constant.width = 2) then return ldc constant else failure
  else if 0x1A ≤ opcode ∧ opcode ≤ 0x2D then
    return load (.ofOrdinal ((opcode - 0x1A) / 4)) (UInt16.ofNat ((opcode - 0x1A) % 4))
  else if 0x3B ≤ opcode ∧ opcode ≤ 0x4E then
    return store (.ofOrdinal ((opcode - 0x3B) / 4)) (UInt16.ofNat ((opcode - 0x3B) % 4))
  else if opcode = 0x57 then return pop .one
  else if opcode = 0x58 then return pop .two
  else if 0x59 ≤ opcode ∧ opcode ≤ 0x5B then return dup .one (.ofSlots (opcode - 0x59))
  else if 0x5C ≤ opcode ∧ opcode ≤ 0x5E then return dup .two (.ofSlots (opcode - 0x5C))
  else if opcode = 0x5F then return swap
  else if 0xAC ≤ opcode ∧ opcode ≤ 0xB0 then return ret (some (.ofOrdinal (opcode - 0xAC)))
  else if opcode = 0xB1 then return ret none
  else if 0xB6 ≤ opcode ∧ opcode ≤ 0xB9 then do
    let call ← readOperand pool (ByteReader.number 2)
      (MethodCall.ofResolved? (.ofOrdinal (opcode - 0xB6)))
    readTrailer call
    return invoke call
  else if opcode = 0xC4 then do readAccess (← ByteReader.byte).toNat 2
  else readAccess opcode 1

/-- Reads an instruction. -/
def decode (pool : ConstantPool) : ByteReader Instruction := do
  readOperands pool (← ByteReader.byte).toNat

/-! ## Code -/

/-- The instructions that bytes are the code of, all bytes being used up. -/
def decodeAll (pool : ConstantPool) (bytes : List UInt8) : Option (List Instruction) :=
  if bytes.isEmpty then some []
  else match decode pool bytes with
    | none => none
    | some (instruction, rest) =>
      if rest.length < bytes.length then (decodeAll pool rest).map (instruction :: ·) else none
  termination_by bytes.length

theorem decodeAll_nil (pool : ConstantPool) : decodeAll pool [] = some [] := by
  rw [decodeAll]
  rfl

theorem decodeAll_of_decode {pool : ConstantPool} {bytes rest : List UInt8}
    {instruction : Instruction} (h : decode pool bytes = some (instruction, rest))
    (shorter : rest.length < bytes.length) :
    decodeAll pool bytes = (decodeAll pool rest).map (instruction :: ·) := by
  have nonempty : bytes.isEmpty = false := by
    cases bytes with
    | nil => cases h
    | cons _ _ => rfl
  rw [decodeAll, nonempty, h]
  simp [shorter]

end Instruction

end JvmCode
