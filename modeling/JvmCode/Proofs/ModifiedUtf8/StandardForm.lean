import JvmCode.ModifiedUtf8.Decoder
/-!
# Modified UTF-8 against UTF-8

A text is encoded by its UTF-16 units, and still its encoding is nearly UTF-8: each zero byte is
replaced by `C0 80` and each group of four bytes by the six bytes of two surrogates. The two
replacements are defined on bytes (`replaced`), with no look at the characters behind them. UTF-8
itself is that of the standard library.

A character is either the NUL, or above U+FFFF, or *plain*, and only plain ones keep their bytes.
Each main result is had from what becomes of one character of each of the three kinds.

## Main results

* `charBytes_of_plain`, `charBytes_of_supplementary`: the bytes of a character against its UTF-8.
* `mem_charBytes`: the range of the bytes.
* `replaced_flatMap`: replacing takes the UTF-8 of a text to its encoding.
* `encoding_against_utf8`: what the encoding has in common with UTF-8, and what it has not.
-/

namespace JvmCode.ModifiedUtf8

/-! ## The replacements -/

/-- A number in three bytes, which hold four, six and six bits of it. -/
def threeBytes (n : Nat) : List UInt8 :=
  [UInt8.ofNat (0xE0 + n / 0x1000), UInt8.ofNat (0x80 + n / 0x40 % 0x40),
    UInt8.ofNat (0x80 + n % 0x40)]

/-- The six bytes of the two surrogates of a code point above U+FFFF. -/
def pairBytes (code : Nat) : List UInt8 :=
  threeBytes (0xD800 + (code - 0x10000) / 0x400) ++
    threeBytes (0xDC00 + (code - 0x10000) % 0x400)

theorem length_pairBytes (code : Nat) : (pairBytes code).length = 6 := by
  rw [pairBytes, List.length_append]
  rfl

/-- The code point in a group of four bytes, which hold three, six, six and six bits of it. -/
def fourByteCode (a b c d : UInt8) : Nat :=
  a.toNat % 0x08 * 0x40000 + b.toNat % 0x40 * 0x1000 + c.toNat % 0x40 * 0x40 + d.toNat % 0x40

/-- The bytes with every zero byte and every group of four bytes replaced. A byte from F0 on is
the first one of such a group. -/
def replaced : List UInt8 → List UInt8
  | [] => []
  | a :: rest =>
    if a = 0 then 0xC0 :: 0x80 :: replaced rest
    else if a < 0xF0 then a :: replaced rest
    else match rest with
      | b :: c :: d :: rest => pairBytes (fourByteCode a b c d) ++ replaced rest
      | rest => a :: replaced rest

/-- Bytes other than those two kinds stay as they are. -/
theorem replaced_append {kept : List UInt8} (h : ∀ b ∈ kept, b ≠ 0 ∧ b < 0xF0)
    (rest : List UInt8) : replaced (kept ++ rest) = kept ++ replaced rest := by
  induction kept with
  | nil => rfl
  | cons a kept ih =>
      obtain ⟨⟨nonzero, low⟩, others⟩ := List.forall_mem_cons.mp h
      rw [List.cons_append, replaced.eq_def]
      simp only
      rw [if_neg nonzero, if_pos low, ih others, List.cons_append]

theorem replaced_zero (rest : List UInt8) : replaced (0 :: rest) = 0xC0 :: 0x80 :: replaced rest := by
  rw [replaced.eq_def]
  rfl

theorem replaced_group {a b c d : UInt8} (high : 0xF0 ≤ a) (rest : List UInt8) :
    replaced (a :: b :: c :: d :: rest) = pairBytes (fourByteCode a b c d) ++ replaced rest := by
  have nonzero : a ≠ 0 := by
    rintro rfl
    exact absurd high (by decide)
  rw [replaced.eq_def]
  simp only
  rw [if_neg nonzero, if_neg (UInt8.not_lt.mpr high)]

/-! ## One character -/

/-- The character is neither the NUL nor above U+FFFF. -/
def Plain (c : Char) : Prop := c ≠ '\x00' ∧ c.toNat ≤ 0xFFFF

/-- The character takes two UTF-16 units. -/
def isSupplementary (c : Char) : Bool := 0xFFFF < c.toNat

section Characters

variable {c : Char}

theorem isSupplementary_iff : isSupplementary c = true ↔ 0xFFFF < c.toNat := decide_eq_true_iff

theorem nul_or_plain_or_supplementary (c : Char) :
    c = '\x00' ∨ Plain c ∨ isSupplementary c = true := by
  by_cases nul : c = '\x00'
  · exact .inl nul
  · rcases Nat.lt_or_ge 0xFFFF c.toNat with above | below
    · exact .inr (.inr (isSupplementary_iff.mpr above))
    · exact .inr (.inl ⟨nul, below⟩)

theorem charBytes_nul : charBytes '\x00' = [0xC0, 0x80] := by decide

theorem utf8_nul : String.utf8EncodeChar '\x00' = [0] := by decide

/-- A plain character has the bytes that it has in UTF-8. -/
theorem charBytes_of_plain (plain : Plain c) : charBytes c = String.utf8EncodeChar c := by
  obtain ⟨notNul, below⟩ := plain
  have nonzero : c.toNat ≠ 0 := fun zero => notNul (Char.toNat_inj.mp zero)
  have single : charBytes c = unitBytes c.toNat := by
    rw [charBytes, units, if_pos (by omega), List.flatMap_singleton]
  have code : c.val.toNat = c.toNat := rfl
  rw [single, unitBytes, String.utf8EncodeChar]
  simp only [code]
  by_cases one : c.toNat ≤ 0x7F
  · rw [if_pos (by omega), if_pos (by omega)]
  · by_cases two : c.toNat ≤ 0x7FF
    -- The library masks what is too small for the mask to matter.
    · have first : c.toNat / 64 % 32 + 192 = 0xC0 + c.toNat / 0x40 := by omega
      rw [if_neg (by omega), if_pos (by omega), if_neg (by omega), if_pos (by omega), first,
        Nat.add_comm (c.toNat % 64)]
    · have first : c.toNat / 4096 % 16 + 224 = 0xE0 + c.toNat / 0x1000 := by omega
      rw [if_neg (by omega), if_neg (by omega), if_neg (by omega), if_neg (by omega),
        if_pos (by omega), first, Nat.add_comm (c.toNat / 64 % 64), Nat.add_comm (c.toNat % 64)]

/-- A character above U+FFFF has a group of four bytes in UTF-8, which holds its code point. -/
theorem utf8_of_supplementary (above : isSupplementary c = true) :
    ∃ a b d e, String.utf8EncodeChar c = [a, b, d, e] ∧ 0xF0 ≤ a ∧
      fourByteCode a b d e = c.toNat := by
  rw [isSupplementary_iff] at above
  have valid := toNat_valid c
  have code : c.val.toNat = c.toNat := rfl
  refine ⟨UInt8.ofNat (c.toNat / 262144 % 8 + 240), UInt8.ofNat (c.toNat / 4096 % 64 + 128),
    UInt8.ofNat (c.toNat / 64 % 64 + 128), UInt8.ofNat (c.toNat % 64 + 128), ?_, ?_, ?_⟩
  · rw [String.utf8EncodeChar]
    simp only [code]
    rw [if_neg (by omega), if_neg (by omega), if_neg (by omega)]
  · rw [UInt8.le_iff_toNat_le, UInt8.toNat_ofNat']
    show 240 ≤ _
    omega
  · rw [fourByteCode]
    simp only [UInt8.toNat_ofNat']
    omega

/-- A character above U+FFFF has the bytes of its two surrogates. -/
theorem charBytes_of_supplementary (above : isSupplementary c = true) :
    charBytes c = pairBytes c.toNat := by
  rw [isSupplementary_iff] at above
  have valid := toNat_valid c
  have surrogate : ∀ unit, 0x7FF < unit → unitBytes unit = threeBytes unit := by
    intro unit large
    rw [unitBytes, if_neg (by omega), if_neg (by omega), threeBytes]
  rw [charBytes, units, if_neg (by omega), List.flatMap_cons, List.flatMap_singleton,
    surrogate _ (by omega), surrogate _ (by omega), pairBytes]

/-- No byte of a unit is zero, since the unit 0 takes two bytes, and none starts a group of four. -/
theorem mem_unitBytes {unit : Nat} (small : unit < 0x10000) {b : UInt8} (h : b ∈ unitBytes unit) :
    b ≠ 0 ∧ b ≤ 0xEF := by
  have range : ∀ n : Nat, 0 < n → n ≤ 0xEF → UInt8.ofNat n ≠ 0 ∧ UInt8.ofNat n ≤ 0xEF := by
    intro n positive low
    have value : (UInt8.ofNat n).toNat = n := by
      rw [UInt8.toNat_ofNat']
      omega
    rw [UInt8.le_iff_toNat_le, Ne, ← UInt8.toNat_inj, value]
    exact ⟨Nat.ne_of_gt positive, low⟩
  rw [unitBytes] at h
  split at h
  · obtain rfl := List.mem_singleton.mp h
    exact range _ (by omega) (by omega)
  · split at h
    · simp only [List.mem_cons, List.not_mem_nil, or_false] at h
      rcases h with rfl | rfl <;> exact range _ (by omega) (by omega)
    · simp only [List.mem_cons, List.not_mem_nil, or_false] at h
      rcases h with rfl | rfl | rfl <;> exact range _ (by omega) (by omega)

theorem mem_charBytes {b : UInt8} (h : b ∈ charBytes c) : b ≠ 0 ∧ b ≤ 0xEF := by
  obtain ⟨unit, member, holds⟩ := List.mem_flatMap.mp h
  exact mem_unitBytes (units_lt member) holds

/-- The replacements take the UTF-8 of a character in front to its bytes. -/
theorem replaced_utf8_append (c : Char) (rest : List UInt8) :
    replaced (String.utf8EncodeChar c ++ rest) = charBytes c ++ replaced rest := by
  rcases nul_or_plain_or_supplementary c with rfl | plain | above
  · rw [utf8_nul, charBytes_nul, List.singleton_append, replaced_zero]
    rfl
  · rw [← charBytes_of_plain plain]
    refine replaced_append (fun b member => ?_) rest
    obtain ⟨nonzero, low⟩ := mem_charBytes member
    exact ⟨nonzero, UInt8.lt_of_le_of_lt low (by decide)⟩
  · obtain ⟨a, b, d, e, utf8, high, code⟩ := utf8_of_supplementary above
    rw [utf8, charBytes_of_supplementary above, ← code]
    exact replaced_group high rest

/-- The NUL takes one byte more than in UTF-8, and a character above U+FFFF two. -/
theorem length_charBytes_eq (c : Char) :
    (charBytes c).length = (String.utf8EncodeChar c).length + (if c == '\x00' then 1 else 0)
      + 2 * (if isSupplementary c then 1 else 0) := by
  rcases nul_or_plain_or_supplementary c with rfl | plain | above
  · decide
  · have notAbove : ¬ isSupplementary c = true := by
      rw [isSupplementary_iff]
      exact Nat.not_lt.mpr plain.2
    rw [charBytes_of_plain plain, if_neg (by simpa using plain.1), if_neg notAbove]
    rfl
  · have notNul : c ≠ '\x00' := by
      rintro rfl
      exact absurd above (by decide)
    obtain ⟨a, b, d, e, utf8, _, _⟩ := utf8_of_supplementary above
    rw [charBytes_of_supplementary above, length_pairBytes, utf8, if_neg (by simpa using notNul),
      if_pos above]
    rfl

end Characters

/-! ## Texts -/

theorem toUTF8_eq_flatMap (text : String) :
    text.toUTF8.data.toList = text.toList.flatMap String.utf8EncodeChar := by
  have bytes : text.toUTF8 = text.toList.utf8Encode := String.utf8Encode_toList.symm
  rw [bytes, List.utf8Encode, List.data_toByteArray]

theorem replaced_flatMap (chars : List Char) :
    replaced (chars.flatMap String.utf8EncodeChar) = encodeChars chars := by
  induction chars with
  | nil => rfl
  | cons c chars ih =>
      rw [List.flatMap_cons, replaced_utf8_append, ih, encodeChars_cons]

theorem length_encodeChars (chars : List Char) :
    (encodeChars chars).length = (chars.flatMap String.utf8EncodeChar).length + chars.count '\x00'
      + 2 * chars.countP isSupplementary := by
  induction chars with
  | nil => rfl
  | cons c chars ih =>
      rw [encodeChars_cons, List.length_append, List.flatMap_cons, List.length_append,
        length_charBytes_eq, ih, List.count_cons, List.countP_cons]
      omega

/-- Only plain characters leave as many bytes as there are in UTF-8. -/
theorem encodeChars_eq_flatMap_iff {chars : List Char} :
    encodeChars chars = chars.flatMap String.utf8EncodeChar ↔ ∀ c ∈ chars, Plain c := by
  constructor
  · intro same c member
    -- Equal bytes are equally many, so none were added.
    have length := length_encodeChars chars
    rw [same] at length
    have noNul : '\x00' ∉ chars := List.count_eq_zero.mp (by omega)
    have noneAbove : chars.countP isSupplementary = 0 := by omega
    refine ⟨fun nul => noNul (nul ▸ member), ?_⟩
    have notAbove := List.countP_eq_zero.mp noneAbove c member
    rw [isSupplementary_iff] at notAbove
    exact Nat.not_lt.mp notAbove
  · intro plain
    rw [encodeChars, List.flatMap_def, List.flatMap_def,
      List.map_congr_left fun c member => charBytes_of_plain (plain c member)]

/-- **The encoding against UTF-8.** The encoding of a text is its UTF-8 with each zero byte replaced
by two bytes and each group of four bytes by six, and with all other bytes as they are. So it is
UTF-8 just for texts without a NUL and without a character above U+FFFF, and else it is longer by
one byte for each NUL and by two for each such character. None of its bytes is zero or above EF,
and texts one after the other are encoded one after the other. -/
theorem encoding_against_utf8 (text : String) :
    encode text = replaced text.toUTF8.data.toList ∧
    (encode text = text.toUTF8.data.toList ↔
      ∀ c ∈ text.toList, c ≠ '\x00' ∧ c.toNat ≤ 0xFFFF) ∧
    (encode text).length = text.toUTF8.size + text.toList.count '\x00'
      + 2 * text.toList.countP (fun c => 0xFFFF < c.toNat) ∧
    (∀ b ∈ encode text, b ≠ 0 ∧ b ≤ 0xEF) ∧
    ∀ other, encode (text ++ other) = encode text ++ encode other := by
  have size : text.toUTF8.size = (text.toList.flatMap String.utf8EncodeChar).length := by
    rw [← toUTF8_eq_flatMap]
    rfl
  rw [toUTF8_eq_flatMap, size, encode]
  refine ⟨(replaced_flatMap _).symm, encodeChars_eq_flatMap_iff, length_encodeChars _, ?_,
    encode_append text⟩
  intro b member
  obtain ⟨c, _, holds⟩ := List.mem_flatMap.mp member
  exact mem_charBytes holds

/-- One character of each length, and the NUL: the first and the last do not keep their bytes. -/
example : encode "\x00aé€😀" = [0xC0, 0x80, 0x61, 0xC3, 0xA9, 0xE2, 0x82, 0xAC, 0xED, 0xA0, 0xBD,
    0xED, 0xB8, 0x80] := by
  decide

end JvmCode.ModifiedUtf8
