/-!
# Big-endian bytes

Everything in a class file is written most significant byte first, signed numbers in
two's complement. `bigEndian` writes the low bytes of a number; the class `ToBytes` gives
each kind of item its byte form.

## Main results

* `length_bigEndian` — the width is the number of bytes.
-/

namespace JvmCode

/-- The lowest bytes of a number, as many as asked for, most significant first. -/
def bigEndian : (width : Nat) → Nat → List UInt8
  | 0, _ => []
  | width + 1, n => UInt8.ofNat (n >>> (8 * width)) :: bigEndian width n

@[simp] theorem length_bigEndian (width n : Nat) : (bigEndian width n).length = width := by
  induction width with
  | zero => rfl
  | succ width ih => simp [bigEndian, ih]

/-- Items with a byte form in class files. -/
class ToBytes (α : Type) where
  toBytes : α → List UInt8

export ToBytes (toBytes)

instance : ToBytes UInt8 := ⟨fun n => [n]⟩
instance : ToBytes UInt16 := ⟨fun n => bigEndian 2 n.toNat⟩
instance : ToBytes UInt32 := ⟨fun n => bigEndian 4 n.toNat⟩
instance : ToBytes UInt64 := ⟨fun n => bigEndian 8 n.toNat⟩
instance : ToBytes Int8 := ⟨fun n => toBytes n.toUInt8⟩
instance : ToBytes Int16 := ⟨fun n => toBytes n.toUInt16⟩
instance : ToBytes Int32 := ⟨fun n => toBytes n.toUInt32⟩
instance : ToBytes Int64 := ⟨fun n => toBytes n.toUInt64⟩

/-! ## Buffers of a fixed size -/

/-- Why bytes could not be written. -/
inductive WriteFault
  | bufferFull
  deriving DecidableEq

/-- The fault in words. -/
def WriteFault.message : WriteFault → String
  | .bufferFull => "failed to write whole buffer"

/-- The byte form of an item, if a buffer of this capacity has room for it. -/
def writeWithin {α : Type} [ToBytes α] (capacity : Nat) (item : α) :
    Except WriteFault (List UInt8) :=
  let bytes := toBytes item
  if bytes.length ≤ capacity then .ok bytes else .error .bufferFull

end JvmCode
