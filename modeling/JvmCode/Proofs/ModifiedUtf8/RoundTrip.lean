import JvmCode.ConstantPool.Constant
import JvmCode.ModifiedUtf8.Decoder
/-!
# Texts and their encodings

Decoding gives back what was encoded, and nothing else can be decoded: every unit has one group of
bytes that is accepted for it, and every character one sequence of units. So texts and the bytes
that can be decoded correspond to each other one to one. Both steps of the decoder are inverted on
their own, along the list that they read.

## Main results

* `unitBytes_of_twoByteUnit?`, `unitBytes_of_threeByteUnit?`: the group that a unit was read from.
* `groups_of_decodeUnits`, `eq_flatMap_of_joinUnits`: what the two steps have read.
* `decode_eq_some_iff`: what is decoded to a text.
* `encoding_faithful`: texts against their encodings, also as entries of a pool.
-/

namespace JvmCode.ModifiedUtf8

/-! ## Groups of bytes -/

section Bytes

variable {a b c : UInt8} {unit : Nat}

theorem isContinuation_iff : isContinuation b = true ↔ b.toNat / 0x40 = 2 := by
  rw [isContinuation, beq_iff_eq]

theorem unitBytes_of_oneByte (nonzero : a.toNat ≠ 0) (low : a.toNat < 0x80) :
    a.toNat < 0x10000 ∧ unitBytes a.toNat = [a] := by
  refine ⟨by omega, ?_⟩
  rw [unitBytes, if_pos (by omega), UInt8.ofNat_toNat]

/-- A group of two bytes is that of the unit it is read as. -/
theorem unitBytes_of_twoByteUnit? (h : twoByteUnit? a b = some unit) :
    unit < 0x10000 ∧ unitBytes unit = [a, b] := by
  simp only [twoByteUnit?, Option.ite_none_right_eq_some, isContinuation_iff] at h
  obtain ⟨⟨lead, continuation, shortest⟩, isUnit⟩ := h
  have value := Option.some.inj isUnit
  have first : 0xC0 + unit / 0x40 = a.toNat := by omega
  have second : 0x80 + unit % 0x40 = b.toNat := by omega
  refine ⟨by omega, ?_⟩
  rw [unitBytes, if_neg (by omega), if_pos (by omega), first, second, UInt8.ofNat_toNat,
    UInt8.ofNat_toNat]

/-- A group of three bytes is that of the unit it is read as. -/
theorem unitBytes_of_threeByteUnit? (h : threeByteUnit? a b c = some unit) :
    unit < 0x10000 ∧ unitBytes unit = [a, b, c] := by
  simp only [threeByteUnit?, Option.ite_none_right_eq_some, isContinuation_iff] at h
  obtain ⟨⟨lead, continuation, last, shortest⟩, isUnit⟩ := h
  have value := Option.some.inj isUnit
  have first : 0xE0 + unit / 0x1000 = a.toNat := by omega
  have second : 0x80 + unit / 0x40 % 0x40 = b.toNat := by omega
  have third : 0x80 + unit % 0x40 = c.toNat := by omega
  refine ⟨by omega, ?_⟩
  rw [unitBytes, if_neg (by omega), if_neg (by omega), first, second, third, UInt8.ofNat_toNat,
    UInt8.ofNat_toNat, UInt8.ofNat_toNat]

end Bytes

/-! ## Units -/

/-- The bytes are the groups of the units, none of which is larger than a unit can be. -/
def Groups (bytes : List UInt8) (units : List Nat) : Prop :=
  bytes = units.flatMap unitBytes ∧ ∀ unit ∈ units, unit < 0x10000

/-- A group in front of others, which a decoder has put in front of what the others are read as. -/
theorem Groups.cons {unit : Nat} {group rest : List UInt8} {units : List Nat}
    {others : Option (List Nat)} (front : unit < 0x10000 ∧ unitBytes unit = group)
    (back : ∀ {units}, others = some units → Groups rest units)
    (h : others.map (unit :: ·) = some units) : Groups (group ++ rest) units := by
  obtain ⟨small, rfl⟩ := front
  obtain ⟨units, isOthers, rfl⟩ := Option.map_eq_some_iff.mp h
  obtain ⟨rfl, smallOthers⟩ := back isOthers
  exact ⟨rfl, List.forall_mem_cons.mpr ⟨small, smallOthers⟩⟩

/-- Bytes that are decoded to units are the groups of these units. -/
theorem groups_of_decodeUnits {bytes : List UInt8} {units : List Nat}
    (h : decodeUnits bytes = some units) : Groups bytes units := by
  fun_induction decodeUnits bytes generalizing units with
  | case1 =>
      cases h
      exact ⟨rfl, nofun⟩
  | case3 a rest low nonzero ih => exact .cons (unitBytes_of_oneByte nonzero low) ih h
  | case6 a _ b rest _ unit group ih => exact .cons (unitBytes_of_twoByteUnit? group) ih h
  | case9 a _ b _ c rest unit group ih => exact .cons (unitBytes_of_threeByteUnit? group) ih h
  | case2 | case4 | case5 | case7 | case8 => cases h

/-! ## Characters -/

section Characters

variable {unit low : Nat}

theorem toNat_ofNat_of_isValidChar {code : Nat} (valid : code.isValidChar) :
    (Char.ofNat code).toNat = code := by
  rw [Char.ofNat, dif_pos valid]
  rfl

/-- A unit that is no surrogate is that of one character. -/
theorem units_ofNat (small : unit < 0x10000) (notLow : ¬ isLowSurrogate unit = true)
    (notHigh : ¬ isHighSurrogate unit = true) : units (Char.ofNat unit) = [unit] := by
  rw [isLowSurrogate_iff] at notLow
  rw [isHighSurrogate_iff] at notHigh
  have valid : unit.isValidChar := by
    show unit < 0xD800 ∨ 0xDFFF < unit ∧ unit < 0x110000
    omega
  rw [units, toNat_ofNat_of_isValidChar valid]
  exact if_pos small

/-- Two surrogates are those of the character that they are joined to. -/
theorem units_ofNat_pair (isHigh : isHighSurrogate unit = true)
    (isLow : isLowSurrogate low = true) :
    units (Char.ofNat (0x10000 + unit % 0x400 * 0x400 + low % 0x400)) = [unit, low] := by
  rw [isHighSurrogate_iff] at isHigh
  rw [isLowSurrogate_iff] at isLow
  have valid : (0x10000 + unit % 0x400 * 0x400 + low % 0x400).isValidChar := by
    show _ ∨ 0xDFFF < _ ∧ _ < 0x110000
    omega
  have first : 0xD800 + (unit % 0x400 * 0x400 + low % 0x400) / 0x400 = unit := by omega
  have second : 0xDC00 + (unit % 0x400 * 0x400 + low % 0x400) % 0x400 = low := by omega
  rw [units, toNat_ofNat_of_isValidChar valid]
  simp only [Nat.add_assoc, Nat.add_sub_cancel_left, first, second]
  exact if_neg (by omega)

end Characters

/-- Units that are joined to characters are those of these characters. -/
theorem eq_flatMap_of_joinUnits {given : List Nat} {text : List Char}
    (h : joinUnits given = some text) (small : ∀ unit ∈ given, unit < 0x10000) :
    given = text.flatMap units := by
  fun_induction joinUnits given generalizing text with
  | case1 =>
      cases h
      rfl
  | case4 high _ isHigh low rest isLow ih =>
      obtain ⟨others, joined, rfl⟩ := Option.map_eq_some_iff.mp h
      have rest := ih joined fun unit member =>
        small unit (List.mem_cons_of_mem _ (List.mem_cons_of_mem _ member))
      rw [List.flatMap_cons, units_ofNat_pair isHigh isLow, ← rest]
      rfl
  | case6 unit rest notLow notHigh ih =>
      obtain ⟨isUnit, smallOthers⟩ := List.forall_mem_cons.mp small
      obtain ⟨others, joined, rfl⟩ := Option.map_eq_some_iff.mp h
      rw [List.flatMap_cons, units_ofNat isUnit notLow notHigh, ← ih joined smallOthers]
      rfl
  | case2 | case3 | case5 => cases h

/-! ## Texts -/

theorem decodeChars_eq_some_iff {bytes : List UInt8} {text : List Char} :
    decodeChars bytes = some text ↔ bytes = encodeChars text := by
  constructor
  · intro h
    obtain ⟨given, decoded, joined⟩ := Option.bind_eq_some_iff.mp h
    obtain ⟨rfl, small⟩ := groups_of_decodeUnits decoded
    rw [eq_flatMap_of_joinUnits joined small, encodeChars, List.flatMap_assoc]
    rfl
  · rintro rfl
    exact decodeChars_encodeChars text

theorem decode_eq_some_iff {bytes : List UInt8} {text : String} :
    decode bytes = some text ↔ bytes = encode text := by
  rw [decode, Option.map_eq_some_iff, encode]
  constructor
  · rintro ⟨chars, decoded, rfl⟩
    rw [String.toList_ofList]
    exact decodeChars_eq_some_iff.mp decoded
  · rintro rfl
    exact ⟨text.toList, decodeChars_encodeChars _, String.ofList_toList⟩

theorem encode_inj {text other : String} : encode text = encode other ↔ text = other := by
  constructor
  · intro same
    exact Option.some.inj ((decode_eq_some_iff.mpr rfl).symm.trans (decode_eq_some_iff.mpr same))
  · exact congrArg encode

/-- **Encodings are faithful.** Decoding the encoding of a text gives the text, with no byte left
over, and with more bytes behind it those are decoded after it. Nothing else is decoded to the text.
So two texts that differ have encodings that differ, and so do the bytes of the entries of a pool
that hold them, even of texts that are too long for one. -/
theorem encoding_faithful (text : String) :
    decode (encode text) = some text ∧
    (∀ rest, decode (encode text ++ rest) = (decode rest).map (text ++ ·)) ∧
    (∀ bytes, decode bytes = some text ↔ bytes = encode text) ∧
    (∀ other, encode text = encode other ↔ text = other) ∧
    (∀ other, toBytes (Constant.utf8 text) = toBytes (Constant.utf8 other) ↔ text = other) := by
  refine ⟨decode_eq_some_iff.mpr rfl, ?_, fun _ => decode_eq_some_iff, fun _ => encode_inj, ?_⟩
  · intro rest
    rw [decode, encode, decodeChars_append, decode, Option.map_map, Option.map_map]
    refine congrArg (Option.map · _) (funext fun others => ?_)
    rw [Function.comp_apply, Function.comp_apply, String.ofList_append, String.ofList_toList]
  · intro other
    constructor
    · intro same
      -- The encoding comes after the tag and two bytes for its length.
      have encodings : encode text = encode other := congrArg (List.drop 3) same
      exact encode_inj.mp encodings
    · exact congrArg fun text => toBytes (Constant.utf8 text)

end JvmCode.ModifiedUtf8
