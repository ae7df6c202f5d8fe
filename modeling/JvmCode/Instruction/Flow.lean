import JvmCode.Instruction.Basic
/-!
# Stack flow of instructions

How many slots an instruction takes off the operand stack and then puts on it. Copying
counts as taking off all slots it moves and putting them back with the copy.

## Main results

* `flow_eq_error_iff` — the flow is unknown only for calls whose descriptor is not one.
-/

namespace JvmCode

/-- Slots taken off the stack and then put on it. -/
structure SlotFlow where
  popped : Nat
  pushed : Nat
  deriving DecidableEq

namespace MethodCall

/-- The flow of a call: its arguments go, its result comes. -/
def flow (call : MethodCall) : Except EmitError SlotFlow :=
  match MethodType.ofDescriptor call.descriptor with
  | .ok type => .ok ⟨type.argumentSlots call.kind.hasReceiver, type.returnSlots⟩
  | .error error => .error error

end MethodCall

namespace Instruction

/-- The flow of an instruction. -/
def flow : Instruction → Except EmitError SlotFlow
  | nop => .ok ⟨0, 0⟩
  | aconstNull | iconst _ | fconst _ | bipush _ | sipush _ => .ok ⟨0, 1⟩
  | lconst _ | dconst _ => .ok ⟨0, 2⟩
  | ldc constant => .ok ⟨0, constant.width⟩
  | load kind _ => .ok ⟨0, kind.width⟩
  | store kind _ => .ok ⟨kind.width, 0⟩
  | pop group => .ok ⟨group.slots, 0⟩
  | dup copied under => .ok ⟨copied.slots + under.slots, 2 * copied.slots + under.slots⟩
  | swap => .ok ⟨2, 2⟩
  | ret kind => .ok ⟨kind.size.slots, 0⟩
  | invoke call => call.flow

theorem flow_eq_error_iff {i : Instruction} {error : EmitError} :
    i.flow = .error error ↔
      ∃ call fault, i = invoke call ∧ MethodType.parse call.descriptor = .error fault ∧
        error = .badDescriptor call.descriptor := by
  cases i with
  | invoke call =>
    simp only [flow, MethodCall.flow, MethodType.ofDescriptor]
    cases h : MethodType.parse call.descriptor with
    | ok type => simp [h]
    | error fault =>
      simp only [Except.error.injEq, invoke.injEq]
      constructor
      · rintro rfl
        exact ⟨call, fault, rfl, h, rfl⟩
      · rintro ⟨_, _, rfl, _, rfl⟩
        rfl
  | _ => simp [flow]

end Instruction

end JvmCode
