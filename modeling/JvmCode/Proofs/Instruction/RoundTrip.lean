import JvmCode.Instruction.Decoder
import JvmCode.Instruction.Encoding
import JvmCode.Proofs.ConstantPool.Interning
import Mathlib.Tactic.FinCases
import Mathlib.Data.Fintype.Basic
/-!
# Instructions are read back from their bytes

An encoded instruction is a few bytes and, for some instructions, a place in the constant
pool. It is read back with whatever comes after it, against the pool it was encoded for
and against every extension of that pool: `Encodes` says so, and is stable under
extension by definition.

Opcodes come in families, so reading is first put family by family (`readOperands_…`),
then the encodings of one family are read back. The forms of an access to a local variable
are common to loads and stores, and are read back once for both (`decode_localBytes`).

## Main results

* `decode_localBytes`, `decode_ldcBytes`: the short, the normal and the wide forms.
* `trailer_eq_ok`: what a call of an interface method carries besides its place.
* `encode_answers`: encoding any instruction, in any consistent pool.
-/

namespace JvmCode

open ConstantPool

/-! ## Families of opcodes -/

theorem ComputationalType.ordinal_le (kind : ComputationalType) : kind.ordinal.toNat ≤ 4 := by
  cases kind <;> decide

@[simp] theorem ComputationalType.ofOrdinal_ordinal (kind : ComputationalType) :
    ofOrdinal kind.ordinal.toNat = kind := by
  cases kind <;> rfl

theorem InvokeKind.ordinal_le (kind : InvokeKind) : kind.ordinal.toNat ≤ 3 := by
  cases kind <;> decide

@[simp] theorem InvokeKind.ofOrdinal_ordinal (kind : InvokeKind) :
    ofOrdinal kind.ordinal.toNat = kind := by
  cases kind <;> rfl

namespace Instruction

section Families

variable (pool : ConstantPool) {opcode : Nat}

theorem decode_cons (opcode : UInt8) (bytes : List UInt8) :
    decode pool (opcode :: bytes) = readOperands pool opcode.toNat bytes := rfl

theorem readOperands_ldc (h : 0x12 ≤ opcode ∧ opcode ≤ 0x14) :
    readOperands pool opcode = (do
      let constant ← readOperand pool (ByteReader.number (if opcode = 0x12 then 1 else 2))
        Loadable.ofResolved?
      if (opcode = 0x14) = (constant.width = 2) then return ldc constant else failure) := by
  simp (disch := omega) only [readOperands, dif_neg, if_neg, if_pos]

theorem readOperands_load (h : 0x1A ≤ opcode ∧ opcode ≤ 0x2D) :
    readOperands pool opcode
      = pure (load (.ofOrdinal ((opcode - 0x1A) / 4)) (UInt16.ofNat ((opcode - 0x1A) % 4))) := by
  simp (disch := omega) only [readOperands, dif_neg, if_neg, if_pos]

theorem readOperands_store (h : 0x3B ≤ opcode ∧ opcode ≤ 0x4E) :
    readOperands pool opcode
      = pure (store (.ofOrdinal ((opcode - 0x3B) / 4)) (UInt16.ofNat ((opcode - 0x3B) % 4))) := by
  simp (disch := omega) only [readOperands, dif_neg, if_neg, if_pos]

theorem readOperands_invoke (h : 0xB6 ≤ opcode ∧ opcode ≤ 0xB9) :
    readOperands pool opcode = (do
      let call ← readOperand pool (ByteReader.number 2)
        (MethodCall.ofResolved? (.ofOrdinal (opcode - 0xB6)))
      readTrailer call
      return invoke call) := by
  simp (disch := omega) only [readOperands, dif_neg, if_neg, if_pos]

theorem readOperands_ret (h : 0xAC ≤ opcode ∧ opcode ≤ 0xB0) :
    readOperands pool opcode = pure (ret (some (.ofOrdinal (opcode - 0xAC)))) := by
  simp (disch := omega) only [readOperands, dif_neg, if_neg, if_pos]

theorem readOperands_returnVoid (h : opcode = 0xB1) :
    readOperands pool opcode = pure (ret none) := by
  simp (disch := omega) only [readOperands, dif_neg, if_neg, if_pos]

theorem readOperands_access (h : 0x15 ≤ opcode ∧ opcode ≤ 0x19 ∨ 0x36 ≤ opcode ∧ opcode ≤ 0x3A) :
    readOperands pool opcode = readAccess opcode 1 := by
  simp (disch := omega) only [readOperands, dif_neg, if_neg]

end Families

/-! ## Operands -/

section Operands

variable {pool : ConstantPool}

theorem number_one (byte : UInt8) (rest : List UInt8) :
    ByteReader.number 1 (byte :: rest) = some (byte.toNat, rest) := rfl

theorem number_two (word : UInt16) (rest : List UInt8) :
    ByteReader.number 2 (toBytes word ++ rest) = some (word.toNat, rest) :=
  ByteReader.number_bigEndian_of_lt 2 word.toNat_lt rest

/-- An operand is found at its place, once the place is read. -/
theorem readOperand_of_follow? {α : Type} {place : ByteReader Nat} {index : PoolIndex}
    {bytes rest : List UInt8} {resolved : ResolvedConstant}
    {ofResolved? : ResolvedConstant → Option α} {operand : α}
    (read : place bytes = some (index.val.toNat, rest))
    (found : pool.follow? index = some resolved) (known : ofResolved? resolved = some operand) :
    readOperand pool place ofResolved? bytes = some (operand, rest) := by
  have same : PoolIndex.mk (UInt16.ofNat index.val.toNat) = index := by
    rw [UInt16.ofNat_toNat]
  rw [readOperand, ByteReader.bind_of_eq read, same, found, Option.bind_some, known]
  rfl

/-- Accesses to local variables are read back in all three forms, if the short opcodes stand
for the first variables and the normal one is that of an access with an operand. -/
theorem decode_localBytes {short normal : UInt8} {access : UInt16 → Instruction}
    (isShort : ∀ index : UInt16, index.toNat ≤ 3 →
      readOperands pool (short + index.toUInt8).toNat = pure (access index))
    (isNormal : readOperands pool normal.toNat = readAccess normal.toNat 1)
    (reads : ∀ width, readAccess normal.toNat width
      = (fun n => access (UInt16.ofNat n)) <$> ByteReader.number width)
    (index : UInt16) (rest : List UInt8) :
    decode pool (localBytes short normal index ++ rest) = some (access index, rest) := by
  unfold localBytes
  by_cases first : index.toNat ≤ 3
  · rw [if_pos first, List.singleton_append, decode_cons, isShort index first]
    rfl
  · rw [if_neg first]
    by_cases small : index.toNat ≤ 255
    · have low : UInt16.ofNat index.toUInt8.toNat = index := by
        rw [UInt16.toNat_toUInt8, Nat.mod_eq_of_lt (by omega), UInt16.ofNat_toNat]
      rw [if_pos small, List.cons_append, List.singleton_append, decode_cons, isNormal, reads,
        ByteReader.map_of_eq (number_one _ rest), low]
    · have wide : readOperands pool 0xC4 (normal :: (toBytes index ++ rest))
          = readAccess normal.toNat 2 (toBytes index ++ rest) := rfl
      rw [if_neg small, List.cons_append, List.cons_append, decode_cons]
      show readOperands pool 0xC4 (normal :: (toBytes index ++ rest)) = _
      rw [wide, reads, ByteReader.map_of_eq (number_two index rest), UInt16.ofNat_toNat]

end Operands

/-! ## Local variables -/

section LocalVariables

variable (pool : ConstantPool) (kind : ComputationalType) (index : UInt16) (rest : List UInt8)

/-- The short opcodes of a family, four to a kind, as long as the family ends in time. -/
theorem toNat_shortOpcode {base : UInt8} (room : base.toNat + 19 ≤ 255)
    (small : index.toNat ≤ 3) :
    (base + 4 * kind.ordinal + index.toUInt8).toNat
      = base.toNat + (4 * kind.ordinal.toNat + index.toNat) := by
  have ordinal := kind.ordinal_le
  rw [UInt8.toNat_add, UInt8.toNat_add, UInt8.toNat_mul, UInt16.toNat_toUInt8]
  show ((base.toNat + 4 * kind.ordinal.toNat % 256) % 256 + index.toNat % 256) % 256 = _
  omega

theorem toNat_normalOpcode {base : UInt8} (room : base.toNat + 4 ≤ 255) :
    (base + kind.ordinal).toNat = base.toNat + kind.ordinal.toNat := by
  have ordinal := kind.ordinal_le
  rw [UInt8.toNat_add]
  omega

/-- The kind and the variable are found again from the place in a family of short opcodes. -/
theorem splitShort (small : index.toNat ≤ 3) :
    ComputationalType.ofOrdinal ((4 * kind.ordinal.toNat + index.toNat) / 4) = kind ∧
      UInt16.ofNat ((4 * kind.ordinal.toNat + index.toNat) % 4) = index := by
  rw [Nat.mul_add_div (by decide), Nat.div_eq_of_lt (by omega), Nat.add_zero, Nat.mul_add_mod,
    Nat.mod_eq_of_lt (by omega)]
  exact ⟨kind.ofOrdinal_ordinal, UInt16.ofNat_toNat⟩

theorem readAccess_load {opcode : Nat} (range : 0x15 ≤ opcode ∧ opcode ≤ 0x19) (width : Nat) :
    readAccess opcode width =
      (fun n => load (.ofOrdinal (opcode - 0x15)) (UInt16.ofNat n)) <$> ByteReader.number width := by
  simp only [readAccess, if_pos range, bind_pure_comp]

theorem readAccess_store {opcode : Nat} (range : 0x36 ≤ opcode ∧ opcode ≤ 0x3A) (width : Nat) :
    readAccess opcode width =
      (fun n => store (.ofOrdinal (opcode - 0x36)) (UInt16.ofNat n)) <$> ByteReader.number width := by
  have notLoad : ¬ (0x15 ≤ opcode ∧ opcode ≤ 0x19) := by omega
  simp only [readAccess, if_neg notLoad, if_pos range, bind_pure_comp]

/-- A family of accesses is read back, if its short opcodes are read as four variables to a kind
and the others as accesses with an operand, one to a kind. -/
theorem decode_access {short normal : UInt8} {access : ComputationalType → UInt16 → Instruction}
    (shortRoom : short.toNat + 19 ≤ 255) (normalRoom : normal.toNat + 4 ≤ 255)
    (isShort : ∀ place ≤ 19, readOperands pool (short.toNat + place)
      = pure (access (.ofOrdinal (place / 4)) (UInt16.ofNat (place % 4))))
    (isNormal : ∀ place ≤ 4, readOperands pool (normal.toNat + place)
      = readAccess (normal.toNat + place) 1)
    (reads : ∀ place ≤ 4, ∀ width, readAccess (normal.toNat + place) width
      = (fun n => access (.ofOrdinal place) (UInt16.ofNat n)) <$> ByteReader.number width) :
    decode pool (localBytes (short + 4 * kind.ordinal) (normal + kind.ordinal) index ++ rest)
      = some (access kind index, rest) := by
  have ordinal := kind.ordinal_le
  have opcode : (normal + kind.ordinal).toNat = normal.toNat + kind.ordinal.toNat :=
    toNat_normalOpcode kind normalRoom
  refine decode_localBytes ?_ ?_ ?_ index rest
  · intro first small
    obtain ⟨sameKind, sameIndex⟩ := splitShort kind first small
    rw [toNat_shortOpcode kind first shortRoom small, isShort _ (by omega), sameKind, sameIndex]
  · rw [opcode]
    exact isNormal _ ordinal
  · intro width
    rw [opcode, reads _ ordinal, ComputationalType.ofOrdinal_ordinal]

theorem decode_load :
    decode pool (localBytes (0x1A + 4 * kind.ordinal) (0x15 + kind.ordinal) index ++ rest)
      = some (load kind index, rest) := by
  refine decode_access pool kind index rest (by decide) (by decide) ?_ ?_ ?_
  · intro place small
    show readOperands pool (0x1A + place) = _
    rw [readOperands_load pool (by omega), Nat.add_sub_cancel_left]
  · intro place small
    show readOperands pool (0x15 + place) = readAccess (0x15 + place) 1
    exact readOperands_access pool (by omega)
  · intro place small width
    show readAccess (0x15 + place) width = _
    rw [readAccess_load (by omega), Nat.add_sub_cancel_left]

theorem decode_store :
    decode pool (localBytes (0x3B + 4 * kind.ordinal) (0x36 + kind.ordinal) index ++ rest)
      = some (store kind index, rest) := by
  refine decode_access pool kind index rest (by decide) (by decide) ?_ ?_ ?_
  · intro place small
    show readOperands pool (0x3B + place) = _
    rw [readOperands_store pool (by omega), Nat.add_sub_cancel_left]
  · intro place small
    show readOperands pool (0x36 + place) = readAccess (0x36 + place) 1
    exact readOperands_access pool (by omega)
  · intro place small width
    show readAccess (0x36 + place) width = _
    rw [readAccess_store (by omega), Nat.add_sub_cancel_left]

end LocalVariables

/-! ## Constants and calls -/

section PoolOperands

variable {pool : ConstantPool} {index : PoolIndex}

/-- A constant is read after any of its opcodes, if its place is, and if the opcode is the
one for its width. -/
theorem readOperands_ldc_of_follow? (opcode : Nat) {constant : Loadable}
    {bytes rest : List UInt8}
    (range : 0x12 ≤ opcode ∧ opcode ≤ 0x14) (width : opcode = 0x14 ↔ constant.width = 2)
    (read : ByteReader.number (if opcode = 0x12 then 1 else 2) bytes
      = some (index.val.toNat, rest))
    (found : pool.follow? index = some constant.request.resolved) :
    readOperands pool opcode bytes = some (ldc constant, rest) := by
  have operand := readOperand_of_follow? read found constant.ofResolved?_resolved
  rw [readOperands_ldc pool range, ByteReader.bind_of_eq operand, if_pos (propext width)]
  rfl

/-- A constant is read back from both of its forms, where it is in the pool. -/
theorem decode_ldcBytes {constant : Loadable}
    (found : pool.follow? index = some constant.request.resolved) (rest : List UInt8) :
    decode pool (ldcBytes constant index ++ rest) = some (ldc constant, rest) := by
  have two : ByteReader.number 2 (toBytes index ++ rest) = some (index.val.toNat, rest) :=
    number_two index.val rest
  unfold ldcBytes
  by_cases wide : constant.width = 2
  · rw [if_pos wide, List.cons_append, decode_cons]
    exact readOperands_ldc_of_follow? 0x14 (by decide) (by simp [wide]) two found
  · rw [if_neg wide]
    by_cases small : index.val.toNat ≤ 255
    · have one : ByteReader.number 1 (index.val.toUInt8 :: rest)
          = some (index.val.toNat, rest) := by
        rw [number_one, UInt16.toNat_toUInt8, Nat.mod_eq_of_lt (by omega)]
      rw [if_pos small, List.cons_append, List.singleton_append, decode_cons]
      exact readOperands_ldc_of_follow? 0x12 (by decide) (by simp [wide]) one found
    · rw [if_neg small, List.cons_append, decode_cons]
      exact readOperands_ldc_of_follow? 0x13 (by decide) (by simp [wide]) two found

/-- Only a call of an interface method has something after its place: the slots of its
arguments with the receiver, which fit in one byte, and a zero. -/
theorem trailer_eq_ok {call : MethodCall} {bytes : List UInt8} (h : call.trailer = .ok bytes) :
    (call.kind ≠ .interface ∧ bytes = []) ∨
      (call.kind = .interface ∧ ∃ type count, MethodType.parse call.descriptor = .ok type ∧
        count.toNat = 1 + type.parameterSlots ∧ bytes = [count, 0]) := by
  unfold MethodCall.trailer at h
  split at h
  · next isInterface =>
      refine .inr ⟨isInterface, ?_⟩
      unfold MethodCall.argumentCount MethodType.ofDescriptor at h
      cases parsed : MethodType.parse call.descriptor with
      | error fault =>
          rw [parsed] at h
          cases h
      | ok type =>
          have slots : type.argumentSlots true = 1 + type.parameterSlots := by
            rw [MethodType.argumentSlots, if_pos rfl, Nat.add_comm]
          by_cases room : type.argumentSlots true ≤ 255
          · simp only [parsed, if_pos room] at h
            cases h
            refine ⟨type, _, rfl, ?_, rfl⟩
            rw [UInt8.toNat_ofNat', Nat.mod_eq_of_lt (by omega), slots]
          · simp only [parsed, if_neg room] at h
            cases h
  · next notInterface =>
      cases h
      exact .inl ⟨notInterface, rfl⟩

theorem readTrailer_append {call : MethodCall} {bytes : List UInt8}
    (h : call.trailer = .ok bytes) (rest : List UInt8) :
    readTrailer call (bytes ++ rest) = some ((), rest) := by
  rcases trailer_eq_ok h with ⟨notInterface, rfl⟩ | ⟨isInterface, type, count, parsed, slots, rfl⟩
  · unfold readTrailer
    cases kind : call.kind with
    | interface => exact absurd kind notInterface
    | «virtual» => rfl
    | special => rfl
    | static => rfl
  · have padding : ByteReader.number 1 (0 :: rest) = some (0, rest) := rfl
    simp only [readTrailer, isInterface, List.cons_append, List.nil_append]
    rw [ByteReader.bind_of_eq (number_one count _), ByteReader.bind_of_eq padding, parsed]
    simp only [slots, and_self, if_true]
    rfl

/-- A call is read back, where its method is in the pool and its trailer comes after. -/
theorem decode_invoke {call : MethodCall} {trailer : List UInt8}
    (found : pool.follow? index = some call.request.resolved)
    (h : call.trailer = .ok trailer) (rest : List UInt8) :
    decode pool ((0xB6 + call.kind.ordinal) :: (toBytes index ++ trailer) ++ rest)
      = some (invoke call, rest) := by
  have ordinal := call.kind.ordinal_le
  have opcode : (0xB6 + call.kind.ordinal).toNat = 0xB6 + call.kind.ordinal.toNat := by
    rw [UInt8.toNat_add]
    show (0xB6 + call.kind.ordinal.toNat) % 256 = _
    omega
  have kind : InvokeKind.ofOrdinal (0xB6 + call.kind.ordinal.toNat - 0xB6) = call.kind := by
    rw [Nat.add_sub_cancel_left, InvokeKind.ofOrdinal_ordinal]
  have operand := readOperand_of_follow? (number_two index.val (trailer ++ rest)) found
    call.ofResolved?_resolved
  rw [List.cons_append, List.append_assoc, decode_cons, opcode,
    readOperands_invoke pool (by omega), kind]
  refine (ByteReader.bind_of_eq operand _).trans ?_
  exact ByteReader.bind_of_eq (readTrailer_append h rest) _

end PoolOperands

/-! ## Encoded instructions -/

/-- The bytes are an encoding of the instruction, for the pool and all its extensions. A call
of an interface method has the place of the method, the slots of its arguments with the
receiver, and a zero. -/
structure Encodes (pool : ConstantPool) (instruction : Instruction) (bytes : List UInt8) :
    Prop where
  decodes : ∀ later, pool.Extends later → ∀ rest,
    decode later (bytes ++ rest) = some (instruction, rest)
  interfaceCall : ∀ call, instruction = .invoke call → call.kind = .interface →
    ∃ place count type, bytes = 0xB9 :: (toBytes place ++ [count, 0]) ∧
      pool.follow? place = some call.request.resolved ∧
      MethodType.parse call.descriptor = .ok type ∧ count.toNat = 1 + type.parameterSlots

namespace Encodes

variable {pool later : ConstantPool} {instruction : Instruction} {bytes : List UInt8}

theorem of_extends (h : Encodes pool instruction bytes) (grown : pool.Extends later) :
    Encodes later instruction bytes where
  decodes last more rest := h.decodes last (grown.trans more) rest
  interfaceCall call isCall isInterface := by
    obtain ⟨place, count, type, shape, found, parsed⟩ := h.interfaceCall call isCall isInterface
    exact ⟨place, count, type, shape, follow?_of_extends grown found, parsed⟩

/-- No instruction is encoded in no bytes: there is nothing to read in none. -/
theorem length_pos (h : Encodes pool instruction bytes) : 0 < bytes.length := by
  cases bytes with
  | cons opcode operands => exact Nat.succ_pos _
  | nil => cases h.decodes pool (.refl pool) []

/-- Bytes that are read back against any pool, for an instruction that is not a call. -/
theorem of_decode (decodes : ∀ later rest, decode later (bytes ++ rest) = some (instruction, rest))
    (notCall : ∀ call, instruction ≠ .invoke call) : Encodes pool instruction bytes where
  decodes later _ rest := decodes later rest
  interfaceCall call isCall := absurd isCall (notCall call)

theorem ldc {constant : Loadable} {index : PoolIndex}
    (found : pool.follow? index = some constant.request.resolved) :
    Encodes pool (.ldc constant) (ldcBytes constant index) where
  decodes _ grown rest := decode_ldcBytes (follow?_of_extends grown found) rest
  interfaceCall _ isCall := by cases isCall

theorem invoke {call : MethodCall} {index : PoolIndex} {trailer : List UInt8}
    (found : pool.follow? index = some call.request.resolved) (h : call.trailer = .ok trailer) :
    Encodes pool (.invoke call) ((0xB6 + call.kind.ordinal) :: (toBytes index ++ trailer)) where
  decodes _ grown rest := decode_invoke (follow?_of_extends grown found) h rest
  interfaceCall other isCall isInterface := by
    cases isCall
    rcases trailer_eq_ok h with ⟨notInterface, _⟩ | ⟨_, type, count, parsed, slots, rfl⟩
    · exact absurd isInterface notInterface
    · rw [isInterface]
      exact ⟨index, count, type, rfl, found, parsed, slots⟩

end Encodes

theorem place_answers {pool : ConstantPool} (h : pool.Consistent) (request : PoolRequest) :
    Answers pool (EncodeM.place request) fun index after =>
      after.follow? index = some request.resolved := by
  have answers := resolve_answers h request
  unfold Answers EncodeM.place at *
  cases run : resolve request pool with
  | ok index after =>
      rw [run] at answers
      exact answers
  | error fault after =>
      rw [run] at answers
      exact answers

theorem ofExcept_answers {α : Type} {pool : ConstantPool} (h : pool.Consistent)
    (value : Except EmitError α) :
    Answers pool (EncodeM.ofExcept value) fun answer _ => value = .ok answer := by
  cases value with
  | ok answer => exact ⟨h, .refl pool, rfl⟩
  | error fault => exact ⟨h, .refl pool⟩

/-- Instructions without a place in the pool leave it alone. -/
theorem encode_answers_of_pure {pool : ConstantPool} (h : pool.Consistent)
    {instruction : Instruction} {bytes : List UInt8} (encoded : instruction.encode = pure bytes)
    (decodes : ∀ later rest, decode later (bytes ++ rest) = some (instruction, rest))
    (notCall : ∀ call, instruction ≠ .invoke call) :
    Answers pool instruction.encode fun bytes after => Encodes after instruction bytes := by
  rw [encoded]
  exact ⟨h, .refl pool, .of_decode decodes notCall⟩

/-- Encoding leaves a consistent extension of the pool behind, and what it answers is an
encoding of the instruction there. -/
theorem encode_answers {pool : ConstantPool} (h : pool.Consistent) (instruction : Instruction) :
    Answers pool instruction.encode fun bytes after => Encodes after instruction bytes := by
  have plain := @encode_answers_of_pure pool h
  cases instruction with
  | nop => exact plain rfl (fun _ _ => rfl) (by simp)
  | aconstNull => exact plain rfl (fun _ _ => rfl) (by simp)
  | iconst successor => fin_cases successor <;> exact plain rfl (fun _ _ => rfl) (by simp)
  | lconst value => fin_cases value <;> exact plain rfl (fun _ _ => rfl) (by simp)
  | fconst value => fin_cases value <;> exact plain rfl (fun _ _ => rfl) (by simp)
  | dconst value => fin_cases value <;> exact plain rfl (fun _ _ => rfl) (by simp)
  | bipush value =>
      refine plain rfl (fun later rest => ?_) (by simp)
      have back : (UInt8.ofNat value.toUInt8.toNat).toInt8 = value := by simp
      show ((fun n => bipush (UInt8.ofNat n).toInt8) <$> ByteReader.number 1)
        (value.toUInt8 :: rest) = _
      rw [ByteReader.map_of_eq (number_one _ rest), back]
  | sipush value =>
      refine plain rfl (fun later rest => ?_) (by simp)
      have back : (UInt16.ofNat value.toUInt16.toNat).toInt16 = value := by simp
      show ((fun n => sipush (UInt16.ofNat n).toInt16) <$> ByteReader.number 2)
        (toBytes value.toUInt16 ++ rest) = _
      rw [ByteReader.map_of_eq (number_two _ rest), back]
  | ldc constant =>
      refine (place_answers h constant.request).bind fun index after consistent _ found => ?_
      exact ⟨consistent, .refl after, .ldc found⟩
  | load kind index =>
      exact plain rfl (fun later rest => decode_load later kind index rest) (by simp)
  | store kind index =>
      exact plain rfl (fun later rest => decode_store later kind index rest) (by simp)
  | pop group => cases group <;> exact plain rfl (fun _ _ => rfl) (by simp)
  | dup copied under =>
      cases copied <;> cases under <;> exact plain rfl (fun _ _ => rfl) (by simp)
  | swap => exact plain rfl (fun _ _ => rfl) (by simp)
  | ret kind =>
      cases kind with
      | none =>
          refine plain rfl (fun later rest => ?_) (by simp)
          show readOperands later 0xB1 rest = _
          rw [readOperands_returnVoid later rfl]
          rfl
      | some kind =>
          refine plain rfl (fun later rest => ?_) (by simp)
          have ordinal := kind.ordinal_le
          have opcode : (0xAC + kind.ordinal).toNat = 0xAC + kind.ordinal.toNat :=
            toNat_normalOpcode kind (by decide)
          rw [List.singleton_append, decode_cons, opcode, readOperands_ret later (by omega),
            Nat.add_sub_cancel_left, ComputationalType.ofOrdinal_ordinal]
          rfl
  | invoke call =>
      refine (place_answers h call.request).bind fun index after consistent _ found => ?_
      refine (ofExcept_answers consistent call.trailer).bind
        fun trailer last known grown isTrailer => ?_
      exact ⟨known, .refl last, .invoke (follow?_of_extends grown found) isTrailer⟩

end Instruction

end JvmCode
