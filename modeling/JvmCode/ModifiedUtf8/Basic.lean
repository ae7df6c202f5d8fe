/-!
# Modified UTF-8

Texts in class files are encoded by their UTF-16 units: a unit from 1 to 7F is one byte,
the unit 0 and the units from 80 to 7FF are two bytes, and all others are three. So a
NUL takes two bytes, none of them zero, and a character above U+FFFF takes the six bytes
of its two surrogates.

## Main results

* `byteLength_eq` — `byteLength` is the number of bytes of the encoding.
* `encode_append` — the encoding of a concatenation is the concatenation of the encodings.
-/

namespace JvmCode.ModifiedUtf8

/-- The UTF-16 units of a character. -/
def units (c : Char) : List Nat :=
  let n := c.toNat
  if n < 0x10000 then [n]
  else [0xD800 + (n - 0x10000) / 0x400, 0xDC00 + (n - 0x10000) % 0x400]

/-- The bytes of a UTF-16 unit. -/
def unitBytes (unit : Nat) : List UInt8 :=
  if 0x01 ≤ unit ∧ unit ≤ 0x7F then [UInt8.ofNat unit]
  else if unit ≤ 0x7FF then [UInt8.ofNat (0xC0 + unit / 0x40), UInt8.ofNat (0x80 + unit % 0x40)]
  else [UInt8.ofNat (0xE0 + unit / 0x1000), UInt8.ofNat (0x80 + unit / 0x40 % 0x40),
    UInt8.ofNat (0x80 + unit % 0x40)]

/-- The bytes of a character. -/
def charBytes (c : Char) : List UInt8 := (units c).flatMap unitBytes

/-- The bytes of a sequence of characters. -/
def encodeChars (text : List Char) : List UInt8 := text.flatMap charBytes

/-- The bytes of a text. -/
def encode (text : String) : List UInt8 := encodeChars text.toList

/-- How many bytes a character takes. -/
def charWidth (c : Char) : Nat :=
  let n := c.toNat
  if n = 0 then 2 else if n < 0x80 then 1 else if n < 0x800 then 2
  else if n < 0x10000 then 3 else 6

/-- How many bytes a text takes. -/
def byteLength (text : String) : Nat :=
  text.toList.foldl (fun total c => total + charWidth c) 0

theorem length_unitBytes (unit : Nat) :
    (unitBytes unit).length
      = if 0x01 ≤ unit ∧ unit ≤ 0x7F then 1 else if unit ≤ 0x7FF then 2 else 3 := by
  unfold unitBytes
  split
  · rfl
  · split <;> rfl

theorem length_charBytes (c : Char) : (charBytes c).length = charWidth c := by
  have bound : c.toNat < 0x110000 := by
    have valid := c.valid
    simp only [UInt32.isValidChar, Nat.isValidChar] at valid
    have : c.toNat = c.val.toNat := rfl
    omega
  simp only [charBytes, units, charWidth]
  split
  · simp only [List.flatMap_cons, List.flatMap_nil, List.append_nil, length_unitBytes]
    repeat' split
    all_goals omega
  · simp only [List.flatMap_cons, List.flatMap_nil, List.append_nil, List.length_append,
      length_unitBytes]
    repeat' split
    all_goals omega

theorem encodeChars_cons (c : Char) (text : List Char) :
    encodeChars (c :: text) = charBytes c ++ encodeChars text :=
  List.flatMap_cons

theorem encode_append (a b : String) : encode (a ++ b) = encode a ++ encode b := by
  simp [encode, encodeChars]

theorem byteLength_eq (text : String) : byteLength text = (encode text).length := by
  have shift : ∀ (l : List Char) (n : Nat),
      l.foldl (fun total c => total + charWidth c) n = n + (encodeChars l).length := by
    intro l
    induction l with
    | nil => intro n; rfl
    | cons c l ih =>
      intro n
      rw [List.foldl_cons, ih, encodeChars_cons, List.length_append, length_charBytes]
      omega
  simpa [byteLength, encode] using shift text.toList 0

end JvmCode.ModifiedUtf8
