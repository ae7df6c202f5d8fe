import JvmCode.Proofs.Instruction.RoundTrip
import JvmCode.Sink.Assembler
import JvmCode.Sink.Visit
import Mathlib
/-!
# Assembled code is what was accepted

The assembler appends one chunk of bytes for every instruction it accepts, and its pool
only grows, whether it accepts or refuses. So its code stays the code of the accepted
instructions (`Codes`), although the pool an instruction was encoded against is not the
pool the code is read with in the end. The invariant is `Assembler.Holds`; one visit keeps
it (`hand_holds`), and so does any sequence of visits (`handAll_holds`).

## Main results

* `Codes.decodeAll_eq`: code of instructions is read back as these instructions.
* `handAll_holds`: what a run of visits leaves in an assembler.
* `decodeAll_assembled`: assembled code, read back against the pool and all later ones.
-/

namespace JvmCode

open ConstantPool

/-! ## Code of several instructions -/

namespace Instruction

/-- The bytes are encodings of the instructions, one after the other. -/
inductive Codes (pool : ConstantPool) : List Instruction → List UInt8 → Prop
  | nil : Codes pool [] []
  | cons {instruction : Instruction} {bytes : List UInt8} {instructions : List Instruction}
      {code : List UInt8} (first : Encodes pool instruction bytes)
      (others : Codes pool instructions code) :
      Codes pool (instruction :: instructions) (bytes ++ code)

namespace Codes

variable {pool later : ConstantPool} {instructions : List Instruction} {code : List UInt8}

theorem of_extends (h : Codes pool instructions code) (grown : pool.Extends later) :
    Codes later instructions code := by
  induction h with
  | nil => exact .nil
  | cons first _ ih => exact .cons (first.of_extends grown) ih

/-- One more instruction at the end. -/
theorem snoc {instruction : Instruction} {bytes : List UInt8}
    (h : Codes pool instructions code) (last : Encodes pool instruction bytes) :
    Codes pool (instructions ++ [instruction]) (code ++ bytes) := by
  induction h with
  | nil =>
      have only : Codes pool [instruction] (bytes ++ []) := .cons last .nil
      rw [List.append_nil] at only
      exact only
  | cons first _ ih =>
      rw [List.append_assoc]
      exact .cons first ih

/-- Code is cut where its instructions are. -/
theorem split {before after : List Instruction} (h : Codes pool (before ++ after) code) :
    ∃ front back, code = front ++ back ∧ Codes pool before front ∧ Codes pool after back := by
  induction before generalizing code with
  | nil => exact ⟨[], code, rfl, .nil, h⟩
  | cons instruction before ih =>
      cases h with
      | @cons _ bytes _ others first rest =>
          obtain ⟨front, back, rfl, hFront, hBack⟩ := ih rest
          exact ⟨bytes ++ front, back, (List.append_assoc _ _ _).symm, .cons first hFront, hBack⟩

/-- Code of instructions is read back as these instructions, without any bytes left over. -/
theorem decodeAll_eq (h : Codes pool instructions code) :
    decodeAll pool code = some instructions := by
  induction h with
  | nil => exact decodeAll_nil pool
  | @cons instruction bytes instructions code first _ ih =>
      have decoded := first.decodes pool (.refl pool) code
      have shorter : code.length < (bytes ++ code).length := by
        have nonempty : 0 < bytes.length := first.length_pos
        rw [List.length_append]
        omega
      rw [decodeAll_of_decode decoded shorter, ih]
      rfl

end Codes

end Instruction

/-! ## What an assembler holds -/

namespace Assembler

open Instruction

/-- The pool of an assembler is consistent, and its code is that of the instructions. -/
structure Holds (assembler : Assembler) (instructions : List Instruction) : Prop where
  consistent : assembler.pool.Consistent
  codes : Codes assembler.pool instructions assembler.code.toList

theorem holds_ofPool {pool : ConstantPool} (h : pool.Consistent) : Holds (ofPool pool) [] :=
  ⟨h, .nil⟩

variable {assembler : Assembler} {instructions : List Instruction} {instruction : Instruction}
  {after : ConstantPool}

theorem accept_of_encode_error {error : EmitError}
    (run : instruction.encode assembler.pool = .error error after) :
    accept instruction assembler = .refused { assembler with pool := after } error := by
  rw [accept, run]

theorem accept_of_encode_ok {bytes : List UInt8}
    (run : instruction.encode assembler.pool = .ok bytes after) :
    accept instruction assembler =
      if assembler.code.size + bytes.length ≤ codeLimit then
        .done { assembler with pool := after, code := assembler.code ++ bytes }
      else
        .refused { assembler with pool := after }
          (.codeTooLong (assembler.code.size + bytes.length)) := by
  rw [accept, run]

/-- A larger pool alone changes nothing about what the code is. -/
theorem Holds.of_extends (h : assembler.Holds instructions) (consistent : after.Consistent)
    (grown : assembler.pool.Extends after) :
    Holds { assembler with pool := after } instructions :=
  ⟨consistent, h.codes.of_extends grown⟩

/-- An accepted instruction is appended, a refused one is not; the pool grows either way. -/
theorem accept_holds (h : assembler.Holds instructions) (instruction : Instruction) :
    assembler.pool.Extends (accept instruction assembler).sink.pool ∧
      (accept instruction assembler).sink.Holds
        (match (accept instruction assembler).outcome with
          | .ok () => instructions ++ [instruction]
          | .error _ => instructions) := by
  have answers := encode_answers h.consistent instruction
  unfold Answers at answers
  cases run : instruction.encode assembler.pool with
  | error fault after =>
      rw [run] at answers
      obtain ⟨consistent, grown⟩ := answers
      rw [accept_of_encode_error run]
      exact ⟨grown, h.of_extends consistent grown⟩
  | ok bytes after =>
      rw [run] at answers
      obtain ⟨consistent, grown, encodes⟩ := answers
      rw [accept_of_encode_ok run]
      by_cases room : assembler.code.size + bytes.length ≤ codeLimit
      · rw [if_pos room]
        refine ⟨grown, consistent, ?_⟩
        show Codes after (instructions ++ [instruction]) (assembler.code ++ bytes).toList
        rw [Array.toList_appendList]
        exact (h.codes.of_extends grown).snoc encodes
      · rw [if_neg room]
        exact ⟨grown, h.of_extends consistent grown⟩

/-! ## Runs of visits -/

/-- One visit adds what it was accepted for. -/
theorem hand_holds (h : assembler.Holds instructions) (visit : Visit) :
    assembler.pool.Extends (visit.hand assembler).sink.pool ∧
      (visit.hand assembler).sink.Holds
        (instructions ++ Visit.accepted [visit] [(visit.hand assembler).outcome]) := by
  have nothing : assembler.Holds (instructions ++ []) := by
    rw [List.append_nil]
    exact h
  -- Both ways to hand an instruction over are the same for an assembler.
  have delivers : ∀ instruction, let reply := accept instruction assembler
      assembler.pool.Extends reply.sink.pool ∧ reply.sink.Holds
        (instructions ++ Visit.accepted [.instruction instruction] [reply.outcome]) := by
    intro instruction reply
    obtain ⟨grown, holds⟩ := accept_holds h instruction
    refine ⟨grown, ?_⟩
    cases answer : reply.outcome with
    | ok done =>
        rw [show (accept instruction assembler).outcome = .ok done from answer] at holds
        exact holds
    | error error =>
        rw [show (accept instruction assembler).outcome = .error error from answer] at holds
        show reply.sink.Holds (instructions ++ [])
        rw [List.append_nil]
        exact holds
  cases visit with
  | instruction delivered => exact delivers delivered
  | call delivered => exact delivers (.invoke delivered)
  | limits maxStack maxLocals => exact ⟨.refl _, nothing.consistent, nothing.codes⟩
  | finish => exact ⟨.refl _, nothing⟩

/-- A run adds what was accepted of it, in order, whatever was refused in between. -/
theorem handAll_holds (h : assembler.Holds instructions) (visits : List Visit) :
    assembler.pool.Extends (Visit.handAll assembler visits).1.pool ∧
      (Visit.handAll assembler visits).1.Holds
        (instructions ++ Visit.accepted visits (Visit.handAll assembler visits).2) := by
  induction visits generalizing assembler instructions with
  | nil =>
      refine ⟨.refl _, ?_⟩
      show Holds assembler (instructions ++ [])
      rw [List.append_nil]
      exact h
  | cons visit visits ih =>
      obtain ⟨grown, step⟩ := hand_holds h visit
      obtain ⟨more, rest⟩ := ih step
      rw [Visit.handAll_cons, Visit.accepted_cons, ← List.append_assoc]
      exact ⟨grown.trans more, rest⟩

/-- **Assembled code is what was accepted.** Take any pool that requests lead to, and any
visits to an assembler for it, of which any may be refused. The code is read back as the
instructions that were accepted, in order and with nothing left over, against the pool of the
assembler and against every pool that starts with its entries; pools that further requests or
the next assembler leave are such pools. Every call of an interface method ends in the slots
of its arguments, the receiver included, and a zero. -/
theorem decodeAll_assembled (requests : List PoolRequest) (visits : List Visit) :
    let run := Visit.handAll (ofPool (resolveAll requests ∅).2) visits
    let pool := run.1.pool
    let code := run.1.code.toList
    let accepted := Visit.accepted visits run.2
    decodeAll pool code = some accepted ∧
    (∀ later, pool.Extends later → decodeAll later code = some accepted) ∧
    (∀ more, pool.Extends (resolveAll more pool).2) ∧
    (∀ next, pool.Extends (Visit.handAll (ofPool pool) next).1.pool) ∧
    (∀ before call after, accepted = before ++ .invoke call :: after →
      call.kind = .interface →
      ∃ front back place count type,
        code = front ++ 0xB9 :: (toBytes place ++ [count, 0]) ++ back ∧
        decodeAll pool front = some before ∧ decodeAll pool back = some after ∧
        pool.follow? place = some call.request.resolved ∧
        MethodType.parse call.descriptor = .ok type ∧
        count.toNat = 1 + type.parameterSlots) := by
  intro run pool code accepted
  have start := holds_ofPool (consistent_resolveAll requests)
  have holds : run.1.Holds accepted := (handAll_holds start visits).2
  refine ⟨holds.codes.decodeAll_eq, ?_, ?_, ?_, ?_⟩
  · intro later grown
    exact (holds.codes.of_extends grown).decodeAll_eq
  · intro more
    exact (resolveAll_grows holds.consistent more).2
  · intro next
    exact (handAll_holds (holds_ofPool holds.consistent) next).1
  · intro before call after shape isInterface
    have codes := holds.codes
    rw [shape] at codes
    obtain ⟨front, back, cut, hFront, hBack⟩ := codes.split
    cases hBack with
    | @cons _ bytes _ others first rest =>
        obtain ⟨place, count, type, rfl, known⟩ := first.interfaceCall call rfl isInterface
        refine ⟨front, others, place, count, type, ?_, hFront.decodeAll_eq, rest.decodeAll_eq,
          known⟩
        rw [List.append_assoc]
        exact cut

/-- A variable that needs the wide form, and a call of an interface method after one that is
refused for its descriptor. The entries of the refused call stay, so the other one is at
place 9. -/
theorem decodeAll_assembled_interface :
    let call : MethodCall := ⟨.interface, ⟨"a/B", by decide⟩, ⟨"f", by decide⟩, "(J)V", true⟩
    let visits : List Visit :=
      [.instruction (.load .int 300), .call { call with descriptor := "(" }, .call call]
    let run := Visit.handAll (ofPool (resolveAll [.utf8 "f"] ∅).2) visits
    let instructions := [.load .int 300, .invoke call]
    run.1.code = #[0xC4, 0x15, 1, 44, 0xB9, 0, 9, 3, 0] ∧
      Visit.accepted visits run.2 = instructions ∧
      decodeAll run.1.pool run.1.code.toList = some instructions := by
  intro call visits run instructions
  have code : run.1.code = #[0xC4, 0x15, 1, 44, 0xB9, 0, 9, 3, 0] := by cbv
  have accepted : Visit.accepted visits run.2 = instructions := by cbv
  have read := (decodeAll_assembled [.utf8 "f"] visits).1
  rw [accepted] at read
  exact ⟨code, accepted, read⟩

end Assembler

end JvmCode
