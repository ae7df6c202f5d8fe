import JvmCode.Instruction.Basic
/-!
# Byte encoding of instructions

Instructions are encoded against a constant pool, which gives operands their indices and
grows by the entries it does not hold yet. Where an instruction has several encodings
the shortest one that holds its operand is written.

The opcodes of one family are consecutive, in the order of the computational types and
of the operands, so each family is given by its first opcode.
-/

namespace JvmCode

/-! ## Families of opcodes -/

/-- Place of the type among the opcodes of a family. -/
def ComputationalType.ordinal : ComputationalType → UInt8
  | .int => 0
  | .long => 1
  | .float => 2
  | .double => 3
  | .reference => 4

/-- Place of the kind among the opcodes of calls. -/
def InvokeKind.ordinal : InvokeKind → UInt8
  | .virtual => 0
  | .special => 1
  | .static => 2
  | .interface => 3

/-- The bytes that reach a local variable: an opcode of its own for the first four, one
operand byte up to 255, and the `wide` form for the others. -/
def localBytes (short normal : UInt8) (index : UInt16) : List UInt8 :=
  if index.toNat ≤ 3 then [short + index.toUInt8]
  else if index.toNat ≤ 255 then [normal, index.toUInt8]
  else 0xC4 :: normal :: toBytes index

/-- The bytes that load a constant from its place in the pool: two-slot constants have one
form, the others a short one for places up to 255. -/
def ldcBytes (constant : Loadable) (index : PoolIndex) : List UInt8 :=
  if constant.width = 2 then 0x14 :: toBytes index
  else if index.val.toNat ≤ 255 then [0x12, index.val.toUInt8]
  else 0x13 :: toBytes index

namespace MethodCall

/-- The byte in which a call of an interface method repeats the slots of its arguments,
the receiver included. -/
def argumentCount (call : MethodCall) : Except EmitError UInt8 :=
  match MethodType.ofDescriptor call.descriptor with
  | .error error => .error error
  | .ok type =>
    if type.argumentSlots true ≤ 255 then .ok (UInt8.ofNat (type.argumentSlots true))
    else .error (.badDescriptor call.descriptor)

/-- The bytes after the place of the called method. -/
def trailer (call : MethodCall) : Except EmitError (List UInt8) :=
  match call.kind with
  | .interface =>
    match call.argumentCount with
    | .ok count => .ok [count, 0]
    | .error error => .error error
  | _ => .ok []

end MethodCall

/-! ## Encoding -/

/-- An encoding step: it changes a pool, also on the way to an error. -/
abbrev EncodeM (α : Type) := EStateM EmitError ConstantPool α

namespace EncodeM

/-- The place of a requested entry. -/
def place (request : PoolRequest) : EncodeM PoolIndex := fun pool =>
  match ConstantPool.resolve request pool with
  | .ok index pool => .ok index pool
  | .error fault pool => .error (.pool fault) pool

/-- An answer that does not depend on the pool. -/
def ofExcept {α : Type} : Except EmitError α → EncodeM α
  | .ok value => pure value
  | .error error => throw error

end EncodeM

namespace Instruction

/-- The bytes of an instruction. -/
def encode : Instruction → EncodeM (List UInt8)
  | nop => pure [0x00]
  | aconstNull => pure [0x01]
  | iconst successor => pure [0x02 + UInt8.ofNat successor]
  | lconst value => pure [0x09 + UInt8.ofNat value]
  | fconst value => pure [0x0B + UInt8.ofNat value]
  | dconst value => pure [0x0E + UInt8.ofNat value]
  | bipush value => pure (0x10 :: toBytes value)
  | sipush value => pure (0x11 :: toBytes value)
  | ldc constant => do
    let index ← EncodeM.place constant.request
    return ldcBytes constant index
  | load kind index => pure (localBytes (0x1A + 4 * kind.ordinal) (0x15 + kind.ordinal) index)
  | store kind index => pure (localBytes (0x3B + 4 * kind.ordinal) (0x36 + kind.ordinal) index)
  | pop .one => pure [0x57]
  | pop .two => pure [0x58]
  | dup .one under => pure [0x59 + UInt8.ofNat under.slots]
  | dup .two under => pure [0x5C + UInt8.ofNat under.slots]
  | swap => pure [0x5F]
  | ret (some kind) => pure [0xAC + kind.ordinal]
  | ret none => pure [0xB1]
  | invoke call => do
    let index ← EncodeM.place call.request
    let trailer ← EncodeM.ofExcept call.trailer
    return (0xB6 + call.kind.ordinal) :: (toBytes index ++ trailer)

end Instruction

end JvmCode
