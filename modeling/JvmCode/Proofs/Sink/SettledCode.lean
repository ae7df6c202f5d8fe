import JvmCode.Proofs.Manipulation.Script
/-!
# Settled code

Encoding an instruction leaves everything in the pool that its bytes refer to. So once it was
encoded it is *settled*: from then on every pool encodes it in the same bytes and stays as it is,
whatever was added in between. An assembler has no choice with settled instructions but to append
their bytes, one after the other, as long as there is room.

## Main results

* `Instruction.encode_settles`: an instruction that was encoded is settled.
* `Takes.settles`: what an assembler has taken is settled.
* `Assembler.exists_code_handAll`: code only grows, and not beyond its limit.
* `Assembler.deliver_of_fits`, `Assembler.deliver_of_overflow`: settled instructions again.
-/

namespace JvmCode

open ConstantPool

/-! ## Settled instructions -/

namespace Instruction

/-- From this pool on, the instruction is encoded in these bytes, and nothing is added for it. -/
def Settled (pool : ConstantPool) (instruction : Instruction) (bytes : List UInt8) : Prop :=
  ∀ later, later.Consistent → pool.Extends later → instruction.encode later = .ok bytes later

theorem Settled.of_extends {pool later : ConstantPool} {instruction : Instruction}
    {bytes : List UInt8} (h : Settled pool instruction bytes) (grown : pool.Extends later) :
    Settled later instruction bytes :=
  fun last consistent more => h last consistent (grown.trans more)

/-- The bytes of a settled instruction are read back as the instruction. -/
theorem Settled.encodes {pool : ConstantPool} (h : pool.Consistent) {instruction : Instruction}
    {bytes : List UInt8} (settled : Settled pool instruction bytes) :
    Encodes pool instruction bytes := by
  obtain ⟨_, _, encodes⟩ := (encode_answers h instruction).of_ok (settled pool h (.refl pool))
  exact encodes

theorem codes_of_settled {pool : ConstantPool} (h : pool.Consistent)
    {instructions : List Instruction} {chunks : List (List UInt8)}
    (settled : List.Forall₂ (Settled pool) instructions chunks) :
    Codes pool instructions chunks.flatten := by
  induction settled with
  | nil => exact .nil
  | cons first _ ih => exact .cons (first.encodes h) ih

theorem place_of_follow? {pool : ConstantPool} (h : pool.Consistent) {request : PoolRequest}
    {index : PoolIndex} (found : pool.follow? index = some request.resolved) :
    EncodeM.place request pool = .ok index pool := by
  rw [EncodeM.place, resolve_of_follow? h found]

/-- An instruction that does not look at the pool is settled in every pool. -/
theorem settles_of_pure {pool : ConstantPool} (h : pool.Consistent) {instruction : Instruction}
    {bytes : List UInt8} (encoded : instruction.encode = pure bytes) :
    Answers pool instruction.encode fun bytes after => Settled after instruction bytes := by
  have settled : Settled pool instruction bytes := by
    intro later _ _
    rw [encoded]
    rfl
  rw [encoded]
  exact ⟨h, .refl pool, settled⟩

/-- An instruction that was encoded is settled in the pool that this has left. -/
theorem encode_settles {pool : ConstantPool} (h : pool.Consistent) (instruction : Instruction) :
    Answers pool instruction.encode fun bytes after => Settled after instruction bytes := by
  -- Constants and calls have a place in the pool, which is found again there later.
  cases instruction with
  | ldc constant =>
      refine (place_answers h constant.request).bind fun index after consistent _ found => ?_
      refine ⟨consistent, .refl after, fun later known grown => ?_⟩
      exact bind_of_ok (place_of_follow? known (follow?_of_extends grown found)) rfl
  | invoke call =>
      refine (place_answers h call.request).bind fun index after consistent _ found => ?_
      refine (ofExcept_answers consistent call.trailer).bind
        fun trailer last known grown isTrailer => ?_
      refine ⟨known, .refl last, fun later consistent more => ?_⟩
      have stillFound := follow?_of_extends (grown.trans more) found
      have sameTrailer : EncodeM.ofExcept call.trailer later = .ok trailer later := by
        rw [isTrailer]
        rfl
      exact bind_of_ok (place_of_follow? consistent stillFound) (bind_of_ok sameTrailer rfl)
  | pop group => cases group <;> exact settles_of_pure h rfl
  | dup copied under => cases copied <;> exact settles_of_pure h rfl
  | ret kind => cases kind <;> exact settles_of_pure h rfl
  | _ => exact settles_of_pure h rfl

end Instruction

open Instruction

namespace Assembler

variable {assembler : Assembler} {instruction : Instruction} {bytes : List UInt8}

/-! ## Writing bytes -/

theorem code_append (code : Array UInt8) (bytes more : List UInt8) :
    code ++ bytes ++ more = code ++ (bytes ++ more) := by
  apply Array.toList_inj.mp
  simp only [Array.toList_appendList, List.append_assoc]

theorem size_append (code : Array UInt8) (bytes : List UInt8) :
    (code ++ bytes).size = code.size + bytes.length := by
  rw [← Array.length_toList, Array.toList_appendList, List.length_append, Array.length_toList]

/-- The assembler with these bytes at the end of its code. -/
def write (assembler : Assembler) (bytes : List UInt8) : Assembler :=
  { assembler with code := assembler.code ++ bytes }

theorem write_nil (assembler : Assembler) : assembler.write [] = assembler := by
  simp [write]

theorem write_write (assembler : Assembler) (bytes more : List UInt8) :
    (assembler.write bytes).write more = assembler.write (bytes ++ more) := by
  rw [write, write, code_append]
  rfl

theorem size_write (assembler : Assembler) (bytes : List UInt8) :
    (assembler.write bytes).code.size = assembler.code.size + bytes.length :=
  size_append assembler.code bytes

/-- An assembler has written the bytes of what it accepted. -/
theorem exists_encode_of_accepted (accepted : (accept instruction assembler).outcome = .ok ()) :
    ∃ bytes after, instruction.encode assembler.pool = .ok bytes after ∧
      (accept instruction assembler).sink = write { assembler with pool := after } bytes := by
  cases run : instruction.encode assembler.pool with
  | error fault after =>
      rw [accept_of_encode_error run] at accepted
      cases accepted
  | ok bytes after =>
      rw [accept_of_encode_ok run] at accepted ⊢
      split at accepted
      · next room => exact ⟨bytes, after, rfl, by rw [if_pos room]; rfl⟩
      · cases accepted

/-- A settled instruction is written if it has room, and changes nothing if not. -/
theorem accept_of_settled (h : assembler.pool.Consistent)
    (settled : Settled assembler.pool instruction bytes) :
    accept instruction assembler =
      if assembler.code.size + bytes.length ≤ codeLimit then .done (assembler.write bytes)
      else .refused assembler (.codeTooLong (assembler.code.size + bytes.length)) :=
  accept_of_encode_ok (settled _ h (.refl _))

/-! ## Code grows -/

/-- A visit hands an instruction over, or else changes nothing but the limits. -/
theorem hand_cases (assembler : Assembler) (visit : Visit) :
    (∃ instruction, Visit.instructions [visit] = [instruction] ∧
      visit.hand assembler = accept instruction assembler) ∨
    Visit.instructions [visit] = [] ∧ (visit.hand assembler).sink.code = assembler.code := by
  cases visit with
  | instruction delivered => exact .inl ⟨delivered, rfl, rfl⟩
  | call delivered => exact .inl ⟨.invoke delivered, rfl, rfl⟩
  | limits maxStack maxLocals => exact .inr ⟨rfl, rfl⟩
  | finish => exact .inr ⟨rfl, rfl⟩

/-- A visit keeps the code and writes something after it, if at all, that has room. -/
theorem exists_code_hand (assembler : Assembler) (visit : Visit) :
    ∃ bytes : List UInt8, (visit.hand assembler).sink.code = assembler.code ++ bytes ∧
      (bytes = [] ∨ assembler.code.size + bytes.length ≤ codeLimit) := by
  have nothing : assembler.code = assembler.code ++ ([] : List UInt8) := by simp
  rcases hand_cases assembler visit with ⟨instruction, _, same⟩ | ⟨_, sameCode⟩
  · rw [same]
    cases run : instruction.encode assembler.pool with
    | error fault after =>
        rw [accept_of_encode_error run]
        exact ⟨[], nothing, .inl rfl⟩
    | ok bytes after =>
        rw [accept_of_encode_ok run]
        split
        · next room => exact ⟨bytes, rfl, .inr room⟩
        · exact ⟨[], nothing, .inl rfl⟩
  · exact ⟨[], sameCode.trans nothing, .inl rfl⟩

theorem exists_code_handAll (assembler : Assembler) (visits : List Visit) :
    ∃ bytes : List UInt8, (Visit.handAll assembler visits).1.code = assembler.code ++ bytes ∧
      (bytes = [] ∨ assembler.code.size + bytes.length ≤ codeLimit) := by
  induction visits generalizing assembler with
  | nil => exact ⟨[], by simp [Visit.handAll_nil], .inl rfl⟩
  | cons visit visits ih =>
      obtain ⟨first, isFirst, firstRoom⟩ := exists_code_hand assembler visit
      obtain ⟨others, areOthers, othersRoom⟩ := ih (visit.hand assembler).sink
      rw [isFirst, size_append] at othersRoom
      refine ⟨first ++ others, ?_, ?_⟩
      · rw [Visit.handAll_cons, areOthers, isFirst, code_append]
      · rcases othersRoom with rfl | room
        · rw [List.append_nil]
          exact firstRoom
        · rw [List.length_append, ← Nat.add_assoc]
          exact .inr room

/-! ## Assemblers in use -/

/-- Visits lead to this assembler, from one with a pool that requests have led to. -/
def Reachable (assembler : Assembler) : Prop :=
  ∃ requests visits, assembler = (Visit.handAll (ofPool (resolveAll requests ∅).2) visits).1

namespace Reachable

theorem exists_holds (h : assembler.Reachable) : ∃ instructions, assembler.Holds instructions := by
  obtain ⟨requests, visits, rfl⟩ := h
  exact ⟨_, (handAll_holds (holds_ofPool (consistent_resolveAll requests)) visits).2⟩

theorem consistent (h : assembler.Reachable) : assembler.pool.Consistent := by
  obtain ⟨_, holds⟩ := h.exists_holds
  exact holds.consistent

theorem size_le (h : assembler.Reachable) : assembler.code.size ≤ codeLimit := by
  obtain ⟨requests, visits, rfl⟩ := h
  obtain ⟨bytes, isCode, rfl | room⟩ :=
    exists_code_handAll (ofPool (resolveAll requests ∅).2) visits
  · rw [isCode, size_append]
    exact Nat.zero_le _
  · rw [isCode, size_append]
    exact room

theorem handAll (h : assembler.Reachable) (visits : List Visit) :
    (Visit.handAll assembler visits).1.Reachable := by
  obtain ⟨requests, before, rfl⟩ := h
  refine ⟨requests, before ++ visits, ?_⟩
  rw [Visit.handAll_append]

/-- A delivery that stops early is a run of the visits up to there. -/
theorem deliver (h : assembler.Reachable) (visits : List Visit) :
    (Visit.deliver assembler visits).1.Reachable := by
  induction visits generalizing assembler with
  | nil => exact h
  | cons visit visits ih =>
      have next : (visit.hand assembler).sink.Reachable := h.handAll [visit]
      cases answer : (visit.hand assembler).outcome with
      | ok done =>
          rw [Visit.deliver_of_accepted answer]
          exact ih next
      | error error =>
          rw [Visit.deliver_of_refused answer]
          exact next

theorem takes (h : assembler.Reachable) {visits : List Visit} {final : Assembler}
    (taken : Takes assembler visits final) : final.Reachable := by
  have delivered := h.deliver visits
  rw [Visit.deliver_eq_ok_iff.mpr taken] at delivered
  exact delivered

theorem extends_handAll (h : assembler.Reachable) (visits : List Visit) :
    assembler.pool.Extends (Visit.handAll assembler visits).1.pool := by
  obtain ⟨_, holds⟩ := h.exists_holds
  exact (handAll_holds holds visits).1

end Reachable

/-! ## Settled instructions in turn -/

section Deliver

variable {pool : ConstantPool} {instructions : List Instruction} {chunks : List (List UInt8)}

/-- Where there is room for all of them, settled instructions are all written. -/
theorem deliver_of_fits (settled : List.Forall₂ (Settled pool) instructions chunks)
    (consistent : assembler.pool.Consistent) (grown : pool.Extends assembler.pool)
    (room : assembler.code.size + chunks.flatten.length ≤ codeLimit) :
    Visit.deliver assembler (instructions.map Visit.instruction)
      = (assembler.write chunks.flatten, .ok ()) := by
  induction settled generalizing assembler with
  | nil => rw [List.flatten_nil, write_nil]; rfl
  | @cons instruction bytes instructions chunks first _ ih =>
      rw [List.flatten_cons, List.length_append] at room
      have accepted : (Visit.instruction instruction).hand assembler
          = .done (assembler.write bytes) := by
        show accept instruction assembler = _
        rw [accept_of_settled consistent (first.of_extends grown), if_pos (by omega)]
      have rest := @ih (assembler.write bytes) consistent grown (by rw [size_write]; omega)
      rw [List.map_cons, Visit.deliver_of_accepted (by rw [accepted]; rfl), accepted,
        List.flatten_cons, ← write_write]
      exact rest

/-- Where there is no room for all of them, settled instructions are written up to the first for
which there is none. -/
theorem deliver_of_overflow (settled : List.Forall₂ (Settled pool) instructions chunks)
    (consistent : assembler.pool.Consistent) (grown : pool.Extends assembler.pool)
    (start : assembler.code.size ≤ codeLimit)
    (full : codeLimit < assembler.code.size + chunks.flatten.length) :
    ∃ n < chunks.length,
      let front := (chunks.take n).flatten
      let through := (chunks.take (n + 1)).flatten
      assembler.code.size + front.length ≤ codeLimit ∧
      codeLimit < assembler.code.size + through.length ∧
      Visit.deliver assembler (instructions.map Visit.instruction)
        = (assembler.write front,
          .error (.codeTooLong (assembler.code.size + through.length))) := by
  -- The first one is `n = 0`, or it has room and the others are handed to what it leaves.
  induction settled generalizing assembler with
  | nil =>
      rw [List.flatten_nil, List.length_nil] at full
      omega
  | @cons instruction bytes instructions chunks first _ ih =>
      have answer : (Visit.instruction instruction).hand assembler = _ :=
        accept_of_settled consistent (first.of_extends grown)
      rw [List.flatten_cons, List.length_append] at full
      by_cases fits : assembler.code.size + bytes.length ≤ codeLimit
      · rw [if_pos fits] at answer
        obtain ⟨n, inside, low, high, delivered⟩ := @ih (assembler.write bytes) consistent grown
          (by rw [size_write]; exact fits) (by rw [size_write]; omega)
        rw [size_write] at low high delivered
        refine ⟨n + 1, Nat.succ_lt_succ inside, ?_⟩
        intro front through
        have isFront : front = bytes ++ (chunks.take n).flatten := rfl
        have isThrough : through = bytes ++ (chunks.take (n + 1)).flatten := rfl
        rw [isFront, isThrough, List.length_append, List.length_append, ← Nat.add_assoc,
          ← Nat.add_assoc, ← write_write, List.map_cons,
          Visit.deliver_of_accepted (by rw [answer]; rfl), answer]
        exact ⟨low, high, delivered⟩
      · rw [if_neg fits] at answer
        refine ⟨0, Nat.succ_pos _, ?_⟩
        rw [List.map_cons, Visit.deliver_of_refused (by rw [answer]; rfl), answer]
        simp only [List.take_zero, List.flatten_nil, write_nil, List.take_succ_cons,
          List.flatten_cons, List.append_nil]
        exact ⟨start, Nat.lt_of_not_le fits, rfl⟩

end Deliver

/-- An accepted visit leaves what it hands over settled, and written. -/
theorem hand_settles (h : assembler.pool.Consistent) {visit : Visit}
    (accepted : (visit.hand assembler).outcome = .ok ()) :
    ∃ chunks : List (List UInt8),
      List.Forall₂ (Settled (visit.hand assembler).sink.pool) (Visit.instructions [visit]) chunks ∧
        (visit.hand assembler).sink.code = assembler.code ++ chunks.flatten := by
  rcases hand_cases assembler visit with ⟨instruction, only, same⟩ | ⟨none, sameCode⟩
  · rw [same] at accepted ⊢
    obtain ⟨bytes, pool, encoded, isSink⟩ := exists_encode_of_accepted accepted
    obtain ⟨_, _, settled⟩ := (encode_settles h instruction).of_ok encoded
    refine ⟨[bytes], ?_, ?_⟩
    · rw [only, isSink]
      exact .cons settled .nil
    · rw [isSink, List.flatten_singleton]
      rfl
  · refine ⟨[], ?_, by simp [sameCode]⟩
    rw [none]
    exact .nil

end Assembler

/-- What an assembler has taken is settled in its pool, and its code grew by the bytes. -/
theorem Takes.settles {assembler final : Assembler} {visits : List Visit}
    {before : List Instruction} (taken : Takes assembler visits final)
    (h : assembler.Holds before) :
    assembler.pool.Extends final.pool ∧
      ∃ chunks, List.Forall₂ (Settled final.pool) (Visit.instructions visits) chunks ∧
        final.code = assembler.code ++ chunks.flatten := by
  induction taken generalizing before with
  | nil => exact ⟨.refl _, [], .nil, by simp⟩
  | @cons assembler _ visit visits accepted _ ih =>
      obtain ⟨grown, holds⟩ := Assembler.hand_holds h visit
      obtain ⟨first, isFirst, written⟩ := Assembler.hand_settles h.consistent accepted
      obtain ⟨more, others, areOthers, isCode⟩ := ih holds
      have stillFirst := isFirst.imp fun _ _ settled => settled.of_extends more
      refine ⟨grown.trans more, first ++ others, ?_, ?_⟩
      · rw [← List.singleton_append, Visit.instructions_append]
        exact List.rel_append stillFirst areOthers
      · rw [isCode, written, Assembler.code_append, List.flatten_append]

end JvmCode
