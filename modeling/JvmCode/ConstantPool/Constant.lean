import JvmCode.Floating.Basic
import JvmCode.ModifiedUtf8.Basic
/-!
# Constants

The entries of a constant pool. Some hold a value, the others refer to further entries
by their indices. An entry takes one index, `long` and `double` entries take two.
-/

namespace JvmCode

/-- Place of an entry in a constant pool; places start at 1. -/
structure PoolIndex where
  val : UInt16
  deriving DecidableEq, Hashable

instance : ToBytes PoolIndex := ⟨fun index => toBytes index.val⟩

/-- An entry of a constant pool. -/
inductive Constant
  | utf8 (text : String)
  | integer (value : Int32)
  | float (value : Binary32)
  | long (value : Int64)
  | double (value : Binary64)
  | classInfo (name : PoolIndex)
  | string (text : PoolIndex)
  | methodRef (owner member : PoolIndex) (isInterface : Bool)
  | nameAndType (name descriptor : PoolIndex)
  | methodType (descriptor : PoolIndex)
  deriving DecidableEq, Hashable

namespace Constant

/-- How many indices the entry takes. -/
def width : Constant → Nat
  | long _ | double _ => 2
  | _ => 1

/-- The byte that tells the kinds of entries apart. -/
def tag : Constant → UInt8
  | utf8 _ => 1
  | integer _ => 3
  | float _ => 4
  | long _ => 5
  | double _ => 6
  | classInfo _ => 7
  | string _ => 8
  | methodRef _ _ isInterface => if isInterface then 11 else 10
  | nameAndType _ _ => 12
  | methodType _ => 16

/-- The bytes after the tag. A text comes after its length in bytes. -/
def payload : Constant → List UInt8
  | utf8 text =>
    let encoded := ModifiedUtf8.encode text
    bigEndian 2 encoded.length ++ encoded
  | integer value => toBytes value
  | float value => toBytes value
  | long value => toBytes value
  | double value => toBytes value
  | classInfo name => toBytes name
  | string text => toBytes text
  | methodRef owner member _ => toBytes owner ++ toBytes member
  | nameAndType name descriptor => toBytes name ++ toBytes descriptor
  | methodType descriptor => toBytes descriptor

instance : ToBytes Constant := ⟨fun constant => constant.tag :: constant.payload⟩

theorem width_pos (constant : Constant) : 0 < constant.width := by
  cases constant <;> simp [width]

end Constant

end JvmCode
