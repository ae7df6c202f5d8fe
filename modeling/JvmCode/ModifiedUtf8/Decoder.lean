import JvmCode.ModifiedUtf8.Basic
/-!
# Decoding modified UTF-8

Bytes are decoded in two steps, to UTF-16 units and then to characters. Both are strict:
every unit has one accepted form, its shortest one except for NUL, and surrogates only
come in pairs.

## Main results

* `decodeUnits_append`, `joinUnits_append` — what one unit or one character was encoded to
  is taken off the front.
* `decodeChars_append` — the same for many characters.
* `decodeChars_encodeChars` — decoding gives back what was encoded.
-/

namespace JvmCode.ModifiedUtf8

/-! ## Bytes to units -/

/-- The byte is a later one of a group. -/
def isContinuation (b : UInt8) : Bool := b.toNat / 0x40 == 2

/-- The unit of a group of two bytes. -/
def twoByteUnit? (a b : UInt8) : Option Nat :=
  let unit := a.toNat % 0x20 * 0x40 + b.toNat % 0x40
  if a.toNat / 0x20 = 6 ∧ isContinuation b ∧ (unit = 0 ∨ 0x80 ≤ unit) then some unit else none

/-- The unit of a group of three bytes. -/
def threeByteUnit? (a b c : UInt8) : Option Nat :=
  let unit := a.toNat % 0x10 * 0x1000 + b.toNat % 0x40 * 0x40 + c.toNat % 0x40
  if a.toNat / 0x10 = 14 ∧ isContinuation b ∧ isContinuation c ∧ 0x800 ≤ unit then some unit
  else none

/-- The units that bytes are the encoding of. The first byte of a group tells its length. -/
def decodeUnits : List UInt8 → Option (List Nat)
  | [] => some []
  | a :: rest =>
    if a.toNat < 0x80 then
      if a.toNat = 0 then none else (decodeUnits rest).map (a.toNat :: ·)
    else match rest with
      | [] => none
      | b :: rest =>
        if a.toNat < 0xE0 then
          match twoByteUnit? a b with
          | none => none
          | some unit => (decodeUnits rest).map (unit :: ·)
        else match rest with
          | [] => none
          | c :: rest =>
            match threeByteUnit? a b c with
            | none => none
            | some unit => (decodeUnits rest).map (unit :: ·)

/-! ## Units to characters -/

/-- The unit is the first one of a pair. -/
def isHighSurrogate (unit : Nat) : Bool := unit / 0x400 == 0x36

/-- The unit is the second one of a pair. -/
def isLowSurrogate (unit : Nat) : Bool := unit / 0x400 == 0x37

/-- The characters that units stand for. -/
def joinUnits : List Nat → Option (List Char)
  | [] => some []
  | unit :: rest =>
    if isLowSurrogate unit then none
    else if isHighSurrogate unit then
      match rest with
      | [] => none
      | low :: rest =>
        if isLowSurrogate low then
          (joinUnits rest).map
            (Char.ofNat (0x10000 + unit % 0x400 * 0x400 + low % 0x400) :: ·)
        else none
    else (joinUnits rest).map (Char.ofNat unit :: ·)

/-- The characters that bytes are the encoding of. -/
def decodeChars (bytes : List UInt8) : Option (List Char) :=
  (decodeUnits bytes).bind joinUnits

/-- The text that bytes are the encoding of. -/
def decode (bytes : List UInt8) : Option String := (decodeChars bytes).map String.ofList

/-! ## Reading back -/

theorem decodeUnits_append {unit : Nat} (h : unit < 0x10000) (rest : List UInt8) :
    decodeUnits (unitBytes unit ++ rest) = (decodeUnits rest).map (unit :: ·) := by
  unfold unitBytes
  split
  · have byte : (UInt8.ofNat unit).toNat = unit := by
      rw [UInt8.toNat_ofNat']
      omega
    rw [List.cons_append, List.nil_append, decodeUnits.eq_def]
    simp only
    rw [byte, if_pos (by omega), if_neg (by omega)]
  · split
    · have first : (UInt8.ofNat (0xC0 + unit / 0x40)).toNat = 0xC0 + unit / 0x40 := by
        rw [UInt8.toNat_ofNat']
        omega
      have second : (UInt8.ofNat (0x80 + unit % 0x40)).toNat = 0x80 + unit % 0x40 := by
        rw [UInt8.toNat_ofNat']
        omega
      have group : twoByteUnit? (UInt8.ofNat (0xC0 + unit / 0x40))
          (UInt8.ofNat (0x80 + unit % 0x40)) = some unit := by
        simp only [twoByteUnit?, isContinuation, first, second, beq_iff_eq]
        rw [if_pos (by omega)]
        congr 1
        omega
      rw [List.cons_append, List.cons_append, List.nil_append, decodeUnits.eq_def]
      simp only
      rw [first, if_neg (by omega), if_pos (by omega), group]
    · have first : (UInt8.ofNat (0xE0 + unit / 0x1000)).toNat = 0xE0 + unit / 0x1000 := by
        rw [UInt8.toNat_ofNat']
        omega
      have second : (UInt8.ofNat (0x80 + unit / 0x40 % 0x40)).toNat
          = 0x80 + unit / 0x40 % 0x40 := by
        rw [UInt8.toNat_ofNat']
        omega
      have third : (UInt8.ofNat (0x80 + unit % 0x40)).toNat = 0x80 + unit % 0x40 := by
        rw [UInt8.toNat_ofNat']
        omega
      have group : threeByteUnit? (UInt8.ofNat (0xE0 + unit / 0x1000))
          (UInt8.ofNat (0x80 + unit / 0x40 % 0x40)) (UInt8.ofNat (0x80 + unit % 0x40))
            = some unit := by
        simp only [threeByteUnit?, isContinuation, first, second, third, beq_iff_eq]
        rw [if_pos (by omega)]
        congr 1
        omega
      rw [List.cons_append, List.cons_append, List.cons_append, List.nil_append,
        decodeUnits.eq_def]
      simp only
      rw [first, if_neg (by omega), if_neg (by omega), group]

theorem decodeUnits_flatMap_append {units : List Nat} (h : ∀ unit ∈ units, unit < 0x10000)
    (rest : List UInt8) :
    decodeUnits (units.flatMap unitBytes ++ rest) = (decodeUnits rest).map (units ++ ·) := by
  induction units with
  | nil => exact Option.map_id'.symm
  | cons unit units ih =>
    obtain ⟨small, others⟩ := List.forall_mem_cons.mp h
    rw [List.flatMap_cons, List.append_assoc, decodeUnits_append small, ih others,
      Option.map_map]
    rfl

/-- The code points that are characters. -/
theorem toNat_valid (c : Char) : c.toNat < 0xD800 ∨ 0xDFFF < c.toNat ∧ c.toNat < 0x110000 :=
  c.valid

theorem isHighSurrogate_iff {unit : Nat} :
    isHighSurrogate unit = true ↔ 0xD800 ≤ unit ∧ unit ≤ 0xDBFF := by
  rw [isHighSurrogate, beq_iff_eq]
  omega

theorem isLowSurrogate_iff {unit : Nat} :
    isLowSurrogate unit = true ↔ 0xDC00 ≤ unit ∧ unit ≤ 0xDFFF := by
  rw [isLowSurrogate, beq_iff_eq]
  omega

theorem joinUnits_append (c : Char) (rest : List Nat) :
    joinUnits (units c ++ rest) = (joinUnits rest).map (c :: ·) := by
  have valid := toNat_valid c
  simp only [units]
  split
  · rw [List.cons_append, List.nil_append, joinUnits.eq_def]
    simp only
    rw [if_neg (by rw [isLowSurrogate_iff]; omega), if_neg (by rw [isHighSurrogate_iff]; omega),
      Char.ofNat_toNat]
  · have code : 0x10000 + (0xD800 + (c.toNat - 0x10000) / 0x400) % 0x400 * 0x400
        + (0xDC00 + (c.toNat - 0x10000) % 0x400) % 0x400 = c.toNat := by omega
    rw [List.cons_append, List.cons_append, List.nil_append, joinUnits.eq_def]
    simp only
    rw [if_neg (by rw [isLowSurrogate_iff]; omega), if_pos (by rw [isHighSurrogate_iff]; omega),
      if_pos (by rw [isLowSurrogate_iff]; omega), code, Char.ofNat_toNat]

theorem units_lt {c : Char} {unit : Nat} (h : unit ∈ units c) : unit < 0x10000 := by
  have valid := toNat_valid c
  simp only [units] at h
  split at h
  · simp only [List.mem_singleton] at h
    omega
  · simp only [List.mem_cons, List.not_mem_nil, or_false] at h
    omega

theorem decodeChars_charBytes_append (c : Char) (rest : List UInt8) :
    decodeChars (charBytes c ++ rest) = (decodeChars rest).map (c :: ·) := by
  rw [decodeChars, charBytes, decodeUnits_flatMap_append fun unit member => units_lt member,
    decodeChars]
  cases decodeUnits rest with
  | none => rfl
  | some others => exact joinUnits_append c others

/-- What characters were encoded to is taken off the front. -/
theorem decodeChars_append (text : List Char) (rest : List UInt8) :
    decodeChars (encodeChars text ++ rest) = (decodeChars rest).map (text ++ ·) := by
  induction text with
  | nil => exact Option.map_id'.symm
  | cons c text ih =>
    rw [encodeChars_cons, List.append_assoc, decodeChars_charBytes_append, ih, Option.map_map]
    rfl

theorem decodeChars_encodeChars (text : List Char) :
    decodeChars (encodeChars text) = some text := by
  have whole := decodeChars_append text []
  rw [List.append_nil] at whole
  rw [whole]
  exact congrArg some (List.append_nil text)

end JvmCode.ModifiedUtf8
