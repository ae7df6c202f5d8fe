import JvmCode.ToBytes
/-!
# Floating point values

Class files hold floating point constants by their IEEE bit patterns. `Binary32` and
`Binary64` are those patterns, so equality of values is equality of bits: the two zeros
differ, and a NaN keeps its payload. The comparison of the values that patterns stand
for is `ieeeEq`.

## Main results

* `FloatFormat.ieeeEq_comm` — the comparison is symmetric.
* `FloatFormat.not_ieeeEq_of_isNaN` — no pattern compares equal to a NaN, itself included.
-/

namespace JvmCode

/-! ## Formats -/

/-- A power of two. -/
def twoPow (k : Nat) : Nat := 1 <<< k

@[simp] theorem twoPow_zero : twoPow 0 = 1 := rfl

/-- The layout of a binary floating point pattern: a sign bit, then exponent and fraction. -/
structure FloatFormat where
  exponentBits : Nat
  fractionBits : Nat

/-- Single precision. -/
def binary32Format : FloatFormat := ⟨8, 23⟩

/-- Double precision. -/
def binary64Format : FloatFormat := ⟨11, 52⟩

namespace FloatFormat

variable (format : FloatFormat)

/-- The sign bit is set. -/
def isNegative (bits : Nat) : Bool :=
  bits.testBit (format.exponentBits + format.fractionBits)

/-- The exponent field. -/
def exponentField (bits : Nat) : Nat :=
  bits >>> format.fractionBits % twoPow format.exponentBits

/-- The fraction field. -/
def fractionField (bits : Nat) : Nat := bits % twoPow format.fractionBits

/-- The exponent field is the one of infinities and NaNs. -/
def isSpecial (bits : Nat) : Bool := format.exponentField bits = twoPow format.exponentBits - 1

/-- The pattern is not a number. -/
def isNaN (bits : Nat) : Bool := format.isSpecial bits && format.fractionField bits != 0

/-- The pattern is one of the two zeros. -/
def isZero (bits : Nat) : Bool :=
  format.exponentField bits = 0 && format.fractionField bits = 0

/-- The values two patterns stand for compare equal. -/
def ieeeEq (a b : Nat) : Bool :=
  !format.isNaN a && !format.isNaN b && (a == b || (format.isZero a && format.isZero b))

theorem ieeeEq_comm (a b : Nat) : format.ieeeEq a b = format.ieeeEq b a := by
  simp only [ieeeEq, Bool.and_comm (!format.isNaN a), Bool.and_comm (format.isZero a)]
  rw [show (a == b) = (b == a) from Bool.beq_comm]

theorem not_ieeeEq_of_isNaN {a : Nat} (b : Nat) (h : format.isNaN a = true) :
    format.ieeeEq a b = false := by
  simp [ieeeEq, h]

/-- The significand and the binary exponent of a finite pattern, whose magnitude is
`significand * 2 ^ exponent`. -/
def magnitude (bits : Nat) : Nat × Int :=
  let bias : Int := twoPow (format.exponentBits - 1) - 1
  let field := format.exponentField bits
  if field = 0 then (format.fractionField bits, 1 - bias - format.fractionBits)
  else (twoPow format.fractionBits + format.fractionField bits,
    field - bias - format.fractionBits)

end FloatFormat

/-! ## The two precisions -/

/-- A single precision pattern. -/
structure Binary32 where
  bits : UInt32
  deriving DecidableEq, Hashable

/-- A double precision pattern. -/
structure Binary64 where
  bits : UInt64
  deriving DecidableEq, Hashable

namespace Binary32

/-- The values compare equal. -/
def ieeeEq (a b : Binary32) : Bool := binary32Format.ieeeEq a.bits.toNat b.bits.toNat

instance : ToBytes Binary32 := ⟨fun x => toBytes x.bits⟩

/-- Positive zero. -/
def zero : Binary32 := ⟨0⟩

/-- One. -/
def one : Binary32 := ⟨0x3F800000⟩

/-- Two. -/
def two : Binary32 := ⟨0x40000000⟩

end Binary32

namespace Binary64

/-- The values compare equal. -/
def ieeeEq (a b : Binary64) : Bool := binary64Format.ieeeEq a.bits.toNat b.bits.toNat

instance : ToBytes Binary64 := ⟨fun x => toBytes x.bits⟩

/-- Positive zero. -/
def zero : Binary64 := ⟨0⟩

/-- One. -/
def one : Binary64 := ⟨0x3FF0000000000000⟩

end Binary64

end JvmCode
