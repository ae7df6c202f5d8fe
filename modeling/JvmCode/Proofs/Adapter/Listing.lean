import JvmCode.Adapter
/-!
# Reading a listing

The code of an adapter is shown byte by byte, each as two hexadecimal digits, with a space
between two bytes. `printedCode?` reads such a line, and gets back the code that was shown.

## Main results

* `byteOfHex?_hexByte`: a byte is read back from its digits.
* `exists_printedCode`: the code is read back from one of the lines of a listing.
-/

namespace JvmCode.Adapter

/-- The value of a hexadecimal digit. -/
def hexDigit? (digit : Char) : Option Nat :=
  (List.range 16).find? fun value => value.digitChar = digit

/-- The byte that two hexadecimal digits stand for. -/
def byteOfHex? : List Char → Option UInt8
  | [high, low] =>
    match hexDigit? high, hexDigit? low with
    | some high, some low => some (UInt8.ofNat (16 * high + low))
    | _, _ => none
  | _ => none

/-- The bytes that a line shows behind the word for code. -/
def printedCode? (line : String) : Option (List UInt8) :=
  if "  code: ".toList.isPrefixOf line.toList then
    ((line.toList.drop "  code: ".toList.length).splitOn ' ').mapM byteOfHex?
  else none

theorem hexDigit?_digitChar {value : Nat} (small : value < 16) :
    hexDigit? value.digitChar = some value := by
  have all : ∀ value : Fin 16, hexDigit? value.val.digitChar = some value.val := by decide
  exact all ⟨value, small⟩

theorem byteOfHex?_hexByte (byte : UInt8) : byteOfHex? (hexByte byte).toList = some byte := by
  have small := byte.toNat_lt
  have high : hexDigit? (byte.toNat / 16).digitChar = some (byte.toNat / 16) :=
    hexDigit?_digitChar (by omega)
  have low : hexDigit? (byte.toNat % 16).digitChar = some (byte.toNat % 16) :=
    hexDigit?_digitChar (by omega)
  rw [hexByte, String.toList_ofList, byteOfHex?, high, low]
  simp only [Nat.div_add_mod, UInt8.ofNat_toNat]

/-- A digit is not a space. -/
theorem space_not_mem_hexByte (byte : UInt8) : ' ' ∉ (hexByte byte).toList := by
  have all : ∀ value : Fin 16, value.val.digitChar ≠ ' ' := by decide
  have small := byte.toNat_lt
  have high := all ⟨byte.toNat / 16, by omega⟩
  have low := all ⟨byte.toNat % 16, by omega⟩
  rw [hexByte, String.toList_ofList]
  simp [high.symm, low.symm]

theorem mapM_byteOfHex? (bytes : List UInt8) :
    (bytes.map fun byte => (hexByte byte).toList).mapM byteOfHex? = some bytes := by
  induction bytes with
  | nil => rfl
  | cons byte bytes ih =>
      rw [List.map_cons, List.mapM_cons, byteOfHex?_hexByte, ih]
      rfl

/-- Code that is not empty is read back from the listing. -/
theorem exists_printedCode (descriptor : String) {adapter : Adapter}
    (nonempty : adapter.method.code.toList ≠ []) :
    ∃ line ∈ listing descriptor adapter, printedCode? line = some adapter.method.code.toList := by
  let bytes := adapter.method.code.toList
  let shown := String.intercalate " " (bytes.map hexByte)
  refine ⟨"  code: " ++ shown, by simp [listing, shown, bytes], ?_⟩
  have whole : ("  code: " ++ shown).toList = "  code: ".toList ++ shown.toList :=
    String.toList_append
  have isPrefix : "  code: ".toList.isPrefixOf ("  code: ".toList ++ shown.toList) = true := by
    rw [List.isPrefixOf_iff_prefix]
    exact List.prefix_append _ _
  have words : shown.toList.splitOn ' ' = bytes.map fun byte => (hexByte byte).toList := by
    rw [String.toList_intercalate, List.map_map]
    apply List.splitOn_intercalate
    · intro word member
      obtain ⟨byte, _, rfl⟩ := List.mem_map.mp member
      exact space_not_mem_hexByte byte
    · intro none
      exact nonempty (List.map_eq_nil_iff.mp none)
  rw [printedCode?, whole, if_pos isPrefix, List.drop_left, words]
  exact mapM_byteOfHex? bytes

end JvmCode.Adapter
