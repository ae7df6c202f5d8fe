import JvmCode.ByteReader
import JvmCode.ConstantPool.Basic
import JvmCode.ModifiedUtf8.Decoder
/-!
# Reading constant pools

The byte form of a pool is read back by its format: the count, then entries until the
index count is reached, where the index of an entry follows from the widths of those
before it.

## Main results

* `Constant.read_append` — an entry is read back, whatever comes after it.
-/

namespace JvmCode

/-- Reads the place of another entry. -/
def PoolIndex.read : ByteReader PoolIndex := PoolIndex.mk <$> ByteReader.word

/-! ## Entries -/

namespace Constant

/-- Reads a text after its length in bytes. -/
def readText : ByteReader String := do
  let bytes ← ByteReader.exactly (← ByteReader.number 2)
  match ModifiedUtf8.decode bytes with
  | some text => return text
  | none => failure

/-- Reads an entry made of the places of two others. -/
def readPair (make : PoolIndex → PoolIndex → Constant) : ByteReader Constant := do
  let first ← PoolIndex.read
  let second ← PoolIndex.read
  return make first second

/-- Reads what comes after a tag. -/
def readPayload (tag : UInt8) : ByteReader Constant :=
  match tag.toNat with
  | 1 => utf8 <$> readText
  | 3 => (fun n => integer (UInt32.ofNat n).toInt32) <$> ByteReader.number 4
  | 4 => (fun n => float ⟨UInt32.ofNat n⟩) <$> ByteReader.number 4
  | 5 => (fun n => long (UInt64.ofNat n).toInt64) <$> ByteReader.number 8
  | 6 => (fun n => double ⟨UInt64.ofNat n⟩) <$> ByteReader.number 8
  | 7 => classInfo <$> PoolIndex.read
  | 8 => string <$> PoolIndex.read
  | 10 => readPair fun owner member => methodRef owner member false
  | 11 => readPair fun owner member => methodRef owner member true
  | 12 => readPair nameAndType
  | 16 => methodType <$> PoolIndex.read
  | _ => failure

/-- Reads an entry. -/
def read : ByteReader Constant := do readPayload (← ByteReader.byte)

/-- The text of the entry, if it is one, has a length that two bytes can hold. -/
def TextFits : Constant → Prop
  | utf8 text => (ModifiedUtf8.encode text).length ≤ 65535
  | _ => True

theorem readText_append {text : String} (h : (ModifiedUtf8.encode text).length ≤ 65535)
    (rest : List UInt8) :
    readText (bigEndian 2 (ModifiedUtf8.encode text).length ++
      (ModifiedUtf8.encode text ++ rest)) = some (text, rest) := by
  have decoded : ModifiedUtf8.decode (ModifiedUtf8.encode text) = some text := by
    rw [ModifiedUtf8.decode, ModifiedUtf8.encode, ModifiedUtf8.decodeChars_encodeChars,
      Option.map_some, String.ofList_toList]
  rw [readText, ByteReader.bind_of_eq
    (ByteReader.number_bigEndian_of_lt 2 (Nat.lt_of_le_of_lt h (by decide)) _),
    ByteReader.bind_of_eq (ByteReader.exactly_append _ _), decoded]
  rfl

theorem readIndex_append (index : PoolIndex) (rest : List UInt8) :
    PoolIndex.read (toBytes index ++ rest) = some (index, rest) := by
  have number : ByteReader.number 2 (toBytes index ++ rest) = some (index.val.toNat, rest) :=
    ByteReader.number_bigEndian_of_lt 2 index.val.toNat_lt rest
  rw [PoolIndex.read, ByteReader.word,
    ByteReader.map_of_eq (ByteReader.map_of_eq number _), UInt16.ofNat_toNat]

theorem readPair_append (make : PoolIndex → PoolIndex → Constant) (first second : PoolIndex)
    (rest : List UInt8) :
    readPair make ((toBytes first ++ toBytes second) ++ rest)
      = some (make first second, rest) := by
  rw [List.append_assoc, readPair, ByteReader.bind_of_eq (readIndex_append ..),
    ByteReader.bind_of_eq (readIndex_append ..)]
  rfl

/-- The rule by which an entry is read back, from how its payload is. -/
theorem read_of_payload {constant : Constant} {reader : ByteReader Constant} {rest : List UInt8}
    (tag : readPayload constant.tag = reader)
    (payload : reader (constant.payload ++ rest) = some (constant, rest)) :
    read (toBytes constant ++ rest) = some (constant, rest) := by
  rw [← tag] at payload
  exact payload

theorem read_append {constant : Constant} (h : constant.TextFits) (rest : List UInt8) :
    read (toBytes constant ++ rest) = some (constant, rest) := by
  cases constant with
  | utf8 text =>
    refine read_of_payload rfl ?_
    rw [payload, List.append_assoc]
    exact ByteReader.map_of_eq (readText_append h rest) _
  | integer value =>
    refine read_of_payload rfl ?_
    have number := ByteReader.number_bigEndian_of_lt 4 value.toUInt32.toNat_lt rest
    exact (ByteReader.map_of_eq number _).trans (by simp)
  | float value =>
    refine read_of_payload rfl ?_
    have number := ByteReader.number_bigEndian_of_lt 4 value.bits.toNat_lt rest
    exact (ByteReader.map_of_eq number _).trans (by simp)
  | long value =>
    refine read_of_payload rfl ?_
    have number := ByteReader.number_bigEndian_of_lt 8 value.toUInt64.toNat_lt rest
    exact (ByteReader.map_of_eq number _).trans (by simp)
  | double value =>
    refine read_of_payload rfl ?_
    have number := ByteReader.number_bigEndian_of_lt 8 value.bits.toNat_lt rest
    exact (ByteReader.map_of_eq number _).trans (by simp)
  | classInfo name => exact read_of_payload rfl (ByteReader.map_of_eq (readIndex_append ..) _)
  | string text => exact read_of_payload rfl (ByteReader.map_of_eq (readIndex_append ..) _)
  | methodRef owner member isInterface =>
    cases isInterface
    · exact read_of_payload rfl (readPair_append _ owner member rest)
    · exact read_of_payload rfl (readPair_append _ owner member rest)
  | nameAndType name descriptor =>
    exact read_of_payload rfl (readPair_append _ name descriptor rest)
  | methodType descriptor =>
    exact read_of_payload rfl (ByteReader.map_of_eq (readIndex_append ..) _)

end Constant

/-! ## Pools -/

namespace ConstantPool

/-- Reads entries with their indices, the first one at `next`, up to the index `count`. -/
def readEntries (count next : Nat) : ByteReader (List (PoolIndex × Constant)) := fun bytes =>
  if next < count then
    match Constant.read bytes with
    | none => none
    | some (constant, rest) =>
      match readEntries count (next + constant.width) rest with
      | none => none
      | some (entries, rest) => some ((⟨UInt16.ofNat next⟩, constant) :: entries, rest)
  else if next = count then some ([], bytes)
  else none
  termination_by count - next
  decreasing_by
    have := constant.width_pos
    omega

/-- Reads the entries of a pool. -/
def read : ByteReader (List (PoolIndex × Constant)) := do
  readEntries (← ByteReader.number 2) 1

end ConstantPool

end JvmCode
