import JvmCode.Instruction.Encoding
import JvmCode.Sink.Basic
/-!
# Assembling method code

The `Assembler` is the sink at the bottom of most stacks: it encodes every instruction
and appends its bytes to the code of the method, adding the constants it needs to a pool.
Code has at most 65535 bytes. An instruction that is refused leaves the code as it was,
while the pool keeps what was added for it.

## Main results

* `accept_error` — a refused instruction leaves code and limits alone.
-/

namespace JvmCode

/-! ## Method code -/

/-- The encoded body of a method. -/
structure MethodCode where
  maxStack : UInt16
  maxLocals : UInt16
  code : Array UInt8

/-- The limits, then the code after its length. There are no exception handlers and no
further attributes. -/
instance : ToBytes MethodCode where
  toBytes method :=
    toBytes method.maxStack ++ toBytes method.maxLocals ++ bigEndian 4 method.code.size ++
      method.code.toList ++ toBytes (0 : UInt16) ++ toBytes (0 : UInt16)

/-! ## The assembler -/

/-- A constant pool, and the code encoded against it so far with its limits. -/
structure Assembler where
  pool : ConstantPool
  code : Array UInt8
  maxStack : UInt16
  maxLocals : UInt16

namespace Assembler

/-- An assembler that adds to an existing pool. -/
def ofPool (pool : ConstantPool) : Assembler := ⟨pool, #[], 0, 0⟩

/-- An assembler with a pool of its own. -/
def empty : Assembler := ofPool ∅

/-- The longest code a method can have. -/
def codeLimit : Nat := 65535

/-- The encoded method. -/
def method (assembler : Assembler) : MethodCode :=
  ⟨assembler.maxStack, assembler.maxLocals, assembler.code⟩

/-- Appends an instruction, unless it cannot be encoded or the code becomes too long. -/
def accept (instruction : Instruction) : Assembler → Reply Assembler
  | ⟨pool, code, maxStack, maxLocals⟩ =>
    match instruction.encode pool with
    | .error error pool => .refused ⟨pool, code, maxStack, maxLocals⟩ error
    | .ok bytes pool =>
      if code.size + bytes.length ≤ codeLimit then
        .done ⟨pool, code ++ bytes, maxStack, maxLocals⟩
      else
        .refused ⟨pool, code, maxStack, maxLocals⟩ (.codeTooLong (code.size + bytes.length))

/-- Replaces the limits. -/
def setLimits (maxStack maxLocals : UInt16) (assembler : Assembler) : Reply Assembler :=
  .done { assembler with maxStack := maxStack, maxLocals := maxLocals }

instance : MethodSink Assembler where
  accept := accept
  setLimits := setLimits

theorem accept_error {instruction : Instruction} {assembler : Assembler} {error : EmitError}
    (h : (accept instruction assembler).outcome = .error error) :
    (accept instruction assembler).sink.method = assembler.method := by
  obtain ⟨pool, code, maxStack, maxLocals⟩ := assembler
  unfold accept at *
  simp only at *
  split
  · rfl
  · next hencode =>
    split
    · next room => simp [hencode, room, Reply.done] at h
    · rfl

end Assembler

end JvmCode
