import JvmCode.OperandStack
/-!
# Runs on a limited stack

`Runs` says of straight-line code that it gets from one operand stack to another without ever
taking slots that are not there, and without a stack above the limit on the way. Runs are put
together at the stack where the first ends and the second starts.

## Main results

* `Runs.append`: two runs in turn.
* `Runs.run?_eq`: the stacks after each instruction of a run.
-/

namespace JvmCode.Instruction

/-- The instructions get from the first stack to the second within the limit. -/
inductive Runs (limit : Nat) : OperandStack → List Instruction → OperandStack → Prop
  | nil (stack : OperandStack) : Runs limit stack [] stack
  | cons {stack next final : OperandStack} {instruction : Instruction}
      {instructions : List Instruction} (steps : instruction.step? stack = some next)
      (room : next.length ≤ limit) (rest : Runs limit next instructions final) :
      Runs limit stack (instruction :: instructions) final

namespace Runs

variable {limit : Nat} {stack between final : OperandStack} {instructions more : List Instruction}

theorem append (first : Runs limit stack instructions between)
    (second : Runs limit between more final) : Runs limit stack (instructions ++ more) final := by
  induction first with
  | nil => exact second
  | cons steps room _ ih => exact .cons steps room (ih second)

/-- The stacks after the instructions of a run, one for each: all are within the limit, and
the last one is where the run ends. -/
theorem run?_eq (h : Runs limit stack instructions final) :
    ∃ reached, run? stack instructions = some reached ∧ reached.length = instructions.length ∧
      (∀ between ∈ reached, between.length ≤ limit) ∧ reached.getLastD stack = final := by
  induction h with
  | nil => exact ⟨[], rfl, rfl, by simp, rfl⟩
  | @cons stack next final instruction instructions steps room _ ih =>
      obtain ⟨reached, others, length, within, last⟩ := ih
      refine ⟨next :: reached, ?_, ?_, ?_, ?_⟩
      · rw [run?, steps]
        simp only [others, Option.map_some]
      · rw [List.length_cons, List.length_cons, length]
      · intro between member
        cases member with
        | head => exact room
        | tail _ later => exact within between later
      · rw [List.getLastD_cons]
        exact last

end Runs

end JvmCode.Instruction
