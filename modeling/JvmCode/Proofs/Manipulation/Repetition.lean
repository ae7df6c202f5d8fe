import JvmCode.Proofs.Manipulation.Outcomes
import JvmCode.Proofs.Sink.SettledCode
/-!
# Applying a manipulation again

A manipulation hands over the same instructions every time. An assembler that has taken them once
finds them settled from then on, so a second application adds nothing to the pool, and writes the
same bytes, or those of as many instructions as there is room for.

## Main results

* `apply_again`: the second application.
-/

namespace JvmCode

open ConstantPool Instruction

namespace Manipulation

variable {target : TargetClass} {start after : Assembler} {log : Array LogRecord}
  {declared : StackEffect}

/-- Where a manipulation was applied, its instructions are settled and were written. -/
theorem settles_of_apply (manipulation : Manipulation) (reachable : start.Reachable)
    (applied : Emission.outcome (apply target manipulation ⟨start, log⟩) = (after, .ok declared)) :
    let script := manipulation.script target
    after.Reachable ∧ script.ending = .ok declared ∧
      ∃ chunks, List.Forall₂ (Settled after.pool) (Visit.instructions script.visits) chunks ∧
        after.code = start.code ++ chunks.flatten := by
  intro script
  have performed : script.perform start = (after, .ok declared) :=
    (performs_apply target manipulation ⟨start, log⟩).symm.trans applied
  obtain ⟨taken, ends⟩ := Script.perform_eq_ok_iff.mp performed
  obtain ⟨_, holds⟩ := reachable.exists_holds
  obtain ⟨_, settled⟩ := taken.settles holds
  exact ⟨reachable.takes taken, ends, settled⟩

/-- Handing the instructions of a manipulation to an assembler one by one is the same. -/
theorem deliver_script (assembler : Assembler) (manipulation : Manipulation) :
    let visits := (manipulation.script target).visits
    Visit.deliver assembler visits
      = Visit.deliver assembler ((Visit.instructions visits).map Visit.instruction) :=
  Visit.deliver_map_instruction (fun _ _ => rfl) (fun _ member => instructs_of_mem_script member)
    assembler

/-- **Applied again.** Take an assembler in any use, and a manipulation that is applied to it
successfully. Hand anything over to the assembler afterwards, whatever it answers, and apply the
manipulation again, for the same class. Nothing is added to the pool. If there is room for the
bytes that were written the first time, then exactly these are written again, and the answer is the
same. If there is no room for them, what is written are those of the instructions up to the first
for which there is none, and the answer is that with this one the code would be too long. -/
theorem apply_again (manipulation : Manipulation) (reachable : start.Reachable)
    (applied : Emission.outcome (apply target manipulation ⟨start, log⟩) = (after, .ok declared)) :
    ∃ instructions, ∃ bytes : List UInt8, after.code = start.code ++ bytes ∧
      decodeAll after.pool bytes = some instructions ∧
      ∀ (visits : List Visit) (log : Array LogRecord),
        let between := (Visit.handAll after visits).1
        let again := Emission.outcome (apply target manipulation ⟨between, log⟩)
        again.1.pool = between.pool ∧
        (between.code.size + bytes.length ≤ Assembler.codeLimit ∧
            again = (between.write bytes, .ok declared) ∨
          Assembler.codeLimit < between.code.size + bytes.length ∧
            ∃ n < instructions.length, ∃ front through,
              front <+: through ∧ through <+: bytes ∧
              decodeAll between.pool front = some (instructions.take n) ∧
              decodeAll between.pool through = some (instructions.take (n + 1)) ∧
              between.code.size + front.length ≤ Assembler.codeLimit ∧
              Assembler.codeLimit < between.code.size + through.length ∧
              again = (between.write front,
                .error (.codeTooLong (between.code.size + through.length)))) := by
  let instructions := Visit.instructions (manipulation.script target).visits
  obtain ⟨reachableAfter, ends, chunks, settled, isCode⟩ :=
    settles_of_apply manipulation reachable applied
  have codes : ∀ k, Codes after.pool (instructions.take k) (chunks.take k).flatten :=
    fun k => codes_of_settled reachableAfter.consistent (List.forall₂_take k settled)
  have allCodes := codes_of_settled reachableAfter.consistent settled
  refine ⟨instructions, chunks.flatten, isCode, allCodes.decodeAll_eq, ?_⟩
  intro visits log between again
  have reachableBetween : between.Reachable := reachableAfter.handAll visits
  have consistent : between.pool.Consistent := reachableBetween.consistent
  have grown : after.pool.Extends between.pool := reachableAfter.extends_handAll visits
  have isAgain : again = (manipulation.script target).perform between :=
    performs_apply target manipulation ⟨between, log⟩
  rw [Script.perform, deliver_script] at isAgain
  rcases Nat.lt_or_ge Assembler.codeLimit (between.code.size + chunks.flatten.length) with
    full | room
  · obtain ⟨n, inside, low, high, stopped⟩ :=
      Assembler.deliver_of_overflow settled consistent grown reachableBetween.size_le full
    rw [stopped] at isAgain
    have shorter : chunks.take n <+: chunks.take (n + 1) :=
      List.take_prefix_take_left (Nat.le_succ n)
    refine ⟨by rw [isAgain]; rfl, .inr ⟨full, n, settled.length_eq ▸ inside,
      (chunks.take n).flatten, (chunks.take (n + 1)).flatten, shorter.flatten,
      (List.take_prefix _ _).flatten, ?_, ?_, low, high, isAgain⟩⟩
    · exact ((codes n).of_extends grown).decodeAll_eq
    · exact ((codes (n + 1)).of_extends grown).decodeAll_eq
  · rw [Assembler.deliver_of_fits settled consistent grown room] at isAgain
    have isAnswer : again = (between.write chunks.flatten, .ok declared) :=
      isAgain.trans (congrArg _ ends)
    exact ⟨by rw [isAnswer]; rfl, .inl ⟨room, isAnswer⟩⟩

/-- A text is loaded from the same place after a call that was refused for its descriptor, although
the pool holds six entries more by then. -/
theorem apply_again_text :
    let target : TargetClass := ⟨.object, .java7⟩
    let load := step (.text "hi")
    let call : MethodCall := ⟨.interface, ⟨"a/B", by decide⟩, ⟨"f", by decide⟩, "(", true⟩
    let first := Emission.outcome (apply target load ⟨Assembler.empty, #[]⟩)
    let between := (Visit.handAll first.1 [.call call, .finish]).1
    first.2 = .ok (.push 1) ∧ first.1.code = #[0x12, 2] ∧
      first.1.pool.size = 2 ∧ between.pool.size = 8 ∧
      Emission.outcome (apply target load ⟨between, #[]⟩)
        = (between.write [0x12, 2], .ok (.push 1)) := by
  intro target load call first between
  have answer : first.2 = .ok (.push 1) := by
    unfold first target load
    cbv
  have code : first.1.code = #[0x12, 2] := by
    unfold first target load
    cbv
  have size : first.1.pool.size = 2 := by
    unfold first target load
    cbv
  have grown : between.pool.size = 8 := by
    unfold between first target load call
    cbv
  have short : between.code.size = 2 := by
    unfold between first target load call
    cbv
  have reachable : Assembler.empty.Reachable := ⟨[], [], rfl⟩
  have applied : first = (first.1, .ok (.push 1)) := by rw [← answer]
  obtain ⟨_, bytes, isCode, _, again⟩ := apply_again load reachable applied
  have isBytes : bytes = [0x12, 2] := by
    have list := congrArg Array.toList (isCode.symm.trans code)
    rw [Array.toList_appendList] at list
    exact list
  subst isBytes
  obtain ⟨_, ⟨_, isAgain⟩ | ⟨full, _⟩⟩ := again [.call call, .finish] #[]
  · exact ⟨answer, code, size, grown, isAgain⟩
  · have room : ¬ Assembler.codeLimit < between.code.size + 2 := by
      rw [short]
      decide
    exact absurd full room

end Manipulation

end JvmCode
