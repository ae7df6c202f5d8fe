import JvmCode.ToBytes
/-!
# Reading bytes back

A `ByteReader` reads one item from the front of some bytes. It answers the item and the
bytes left over, or nothing if the bytes do not start with such an item. Readers are
combined in order; what the first one leaves over is what the next one reads.

## Main results

* `bind_of_eq`, `map_of_eq` — how readers are combined.
* `number_bigEndian` — a number is read back, up to the bits it was written without.
* `exactly_append` — as many bytes as asked for are taken off the front.
-/

namespace JvmCode

/-- Reads an item from the front of bytes. -/
abbrev ByteReader (α : Type) := StateT (List UInt8) Option α

namespace ByteReader

/-- Reads one byte. -/
def byte : ByteReader UInt8
  | [] => none
  | b :: rest => some (b, rest)

/-- Reads a number of so many bytes, most significant first. -/
def number : (width : Nat) → ByteReader Nat
  | 0 => pure 0
  | width + 1 => do
    let high ← byte
    let low ← number width
    return high.toNat <<< (8 * width) + low

/-- Reads a 16-bit number. -/
def word : ByteReader UInt16 := UInt16.ofNat <$> number 2

/-- Reads exactly so many bytes. -/
def exactly (count : Nat) : ByteReader (List UInt8) := fun bytes =>
  let (front, rest) := bytes.splitAt count
  if front.length = count then some (front, rest) else none

variable {α β : Type} {bytes rest : List UInt8} {item : α}

theorem bind_of_eq {reader : ByteReader α} (h : reader bytes = some (item, rest))
    (next : α → ByteReader β) : (reader >>= next) bytes = next item rest := by
  show (reader bytes >>= fun (item, rest) => next item rest) = _
  rw [h]
  rfl

theorem map_of_eq {reader : ByteReader α} (h : reader bytes = some (item, rest)) (f : α → β) :
    (f <$> reader) bytes = some (f item, rest) := by
  show (reader bytes >>= fun (item, rest) => some (f item, rest)) = _
  rw [h]
  rfl

theorem exactly_append (front rest : List UInt8) :
    exactly front.length (front ++ rest) = some (front, rest) := by
  simp [exactly]

theorem number_bigEndian (width n : Nat) (rest : List UInt8) :
    number width (bigEndian width n ++ rest) = some (n % 1 <<< (8 * width), rest) := by
  induction width with
  | zero =>
    rw [Nat.mul_zero, Nat.shiftLeft_zero, Nat.mod_one]
    rfl
  | succ width ih =>
    have step : number (width + 1) (bigEndian (width + 1) n ++ rest)
        = some ((n >>> (8 * width) % 256) <<< (8 * width) + n % 1 <<< (8 * width), rest) := by
      have high : byte (bigEndian (width + 1) n ++ rest)
          = some (UInt8.ofNat (n >>> (8 * width)), bigEndian width n ++ rest) := rfl
      rw [number, bind_of_eq high, bind_of_eq ih, UInt8.toNat_ofNat']
      rfl
    rw [step, Nat.shiftRight_eq_div_pow, Nat.shiftLeft_eq, Nat.shiftLeft_eq, Nat.shiftLeft_eq,
      Nat.one_mul, Nat.one_mul, Nat.mul_succ, Nat.pow_add, Nat.mod_mul, Nat.mul_comm,
      Nat.add_comm]

theorem number_bigEndian_of_lt (width : Nat) {n : Nat} (h : n < 1 <<< (8 * width))
    (rest : List UInt8) : number width (bigEndian width n ++ rest) = some (n, rest) := by
  rw [number_bigEndian, Nat.mod_eq_of_lt h]

end ByteReader

end JvmCode
