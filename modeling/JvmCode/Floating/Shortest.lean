import JvmCode.Floating.Basic
/-!
# The shortest decimal of a floating point value

A decimal *reads back* as a value if it lies in the interval of the reals that round to
it, ends included exactly when the significand is even. `shortest` finds the decimal
with the fewest digits that reads back, and of those the nearest one; a tie goes up. It
looks at the decimal grids `10 ^ e` from coarse to fine and takes the first one with a
point in the interval, testing only the two grid points around the value.

`FloatFormat.describe` writes that decimal: positionally with at least one place after
the point where the leading digit stands for `10 ^ -4` to `10 ^ 15`, and with an exponent
elsewhere.
-/

namespace JvmCode

/-- A power of ten. -/
def tenPow (k : Nat) : Nat := Nat.pow 10 k

/-- A decimal number `digits * 10 ^ exponent`. -/
structure Decimal where
  digits : Nat
  exponent : Int
  deriving DecidableEq

/-- The reals that round to a value: the value and the ends, over a common denominator. -/
structure RoundingInterval where
  lower : Nat
  value : Nat
  upper : Nat
  denominator : Nat
  closed : Bool

namespace RoundingInterval

/-- The grid point `k * 10 ^ e` lies in the interval, where `unit` is the grid step and the
interval is magnified by `scale`. -/
def holds (interval : RoundingInterval) (scale unit k : Nat) : Bool :=
  if interval.closed then
    interval.lower * scale ≤ k * unit && k * unit ≤ interval.upper * scale
  else interval.lower * scale < k * unit && k * unit < interval.upper * scale

/-- The point of the grid of step `10 ^ e` that reads back and is nearest to the value. -/
def nearestOnGrid? (interval : RoundingInterval) (e : Int) : Option Nat :=
  let unit := interval.denominator * tenPow e.toNat
  let scale := tenPow (-e).toNat
  let below := interval.value * scale / unit
  let gapBelow := interval.value * scale - below * unit
  let gapAbove := (below + 1) * unit - interval.value * scale
  match interval.holds scale unit below, interval.holds scale unit (below + 1) with
  | false, false => none
  | true, false => some below
  | false, true => some (below + 1)
  | true, true => some (if gapBelow < gapAbove then below else below + 1)

/-- Tries the grids from `10 ^ e` downwards, at most so many. -/
def searchGrids (interval : RoundingInterval) : (tries : Nat) → (e : Int) → Decimal
  | 0, e => ⟨0, e⟩
  | tries + 1, e =>
    match interval.nearestOnGrid? e with
    | some k => ⟨k, e⟩
    | none => interval.searchGrids tries (e - 1)

end RoundingInterval

namespace FloatFormat

variable (format : FloatFormat)

/-- The reals that round to a finite pattern other than zero. Below a power of two the
patterns are twice as dense, so the lower end is only half as far. -/
def roundingInterval (bits : Nat) : RoundingInterval :=
  let (significand, exponent) := format.magnitude bits
  let quarter := exponent - 2
  let unit := twoPow quarter.toNat
  let narrow := format.fractionField bits = 0 ∧ 1 < format.exponentField bits
  { lower := (4 * significand - if narrow then 1 else 2) * unit
    value := 4 * significand * unit
    upper := (4 * significand + 2) * unit
    denominator := twoPow (-quarter).toNat
    closed := significand % 2 = 0 }

/-- How many grids there can be between one too coarse for any value and one with a point
between two neighbouring patterns. -/
def gridCount : Nat := twoPow (format.exponentBits - 1) + 2 * format.fractionBits

/-- The shortest decimal that reads back as a finite pattern other than zero. -/
def shortest (bits : Nat) : Decimal :=
  let interval := format.roundingInterval bits
  let coarse := (Nat.toDigits 10 (interval.upper / interval.denominator)).length
  interval.searchGrids format.gridCount coarse

/-! ## The written form -/

/-- A decimal with at least one place after the point. -/
def positional (digits : List Char) (exponent : Int) : List Char :=
  let places := (-exponent).toNat
  let digits := digits ++ List.replicate exponent.toNat '0'
  let digits := List.replicate (places + 1 - digits.length) '0' ++ digits
  let (whole, fraction) := digits.splitAt (digits.length - places)
  whole ++ '.' :: if fraction.isEmpty then ['0'] else fraction

/-- A decimal with one digit before the point, if there is a point, and an exponent. -/
def scientific (digits : List Char) (leading : Int) : List Char :=
  let mantissa := match digits with
    | [] => []
    | [d] => [d]
    | d :: rest => d :: '.' :: rest
  mantissa ++ 'e' :: (toString leading).toList

/-- The pattern in words. -/
def describe (bits : Nat) : String :=
  let sign := if format.isNegative bits then "-" else ""
  if format.isNaN bits then "NaN"
  else if format.isSpecial bits then sign ++ "inf"
  else if format.isZero bits then sign ++ "0.0"
  else
    let decimal := format.shortest bits
    let digits := Nat.toDigits 10 decimal.digits
    let leading := decimal.exponent + digits.length - 1
    let text :=
      if -4 ≤ leading ∧ leading < 16 then positional digits decimal.exponent
      else scientific digits leading
    sign ++ String.ofList text

end FloatFormat

/-- The value in words. -/
def Binary32.describe (x : Binary32) : String := binary32Format.describe x.bits.toNat

/-- The value in words. -/
def Binary64.describe (x : Binary64) : String := binary64Format.describe x.bits.toNat

end JvmCode
