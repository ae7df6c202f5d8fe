import JvmCode.Instruction.Flow
/-!
# Operand stacks

What instructions do to the operand stack, slot by slot. A slot is known by the value it
is a part of: the kind of the value and the place of the slot in it. Instructions take
slots off regardless of what is in them, but not more than there are.

## Main results

* `Instruction.length_step?` — a step changes the height by the flow of the instruction.
* `Instruction.isSome_step?_iff` — a step is possible exactly when the flow is known and
  the stack holds the slots to be taken off.
-/

namespace JvmCode

/-! ## Slots -/

/-- One slot of a value. -/
structure Slot where
  kind : ComputationalType
  place : Nat
  deriving DecidableEq

/-- The slots of a value, in the order of local variables. -/
def ComputationalType.parts (kind : ComputationalType) : List Slot :=
  (List.range kind.width).map (Slot.mk kind)

@[simp] theorem ComputationalType.length_parts (kind : ComputationalType) :
    kind.parts.length = kind.width := by
  simp [parts]

/-- The local variables of a method at its start, when it has arguments of these types. -/
def argumentParts (types : List FieldType) : List Slot :=
  types.flatMap fun type => (ComputationalType.ofType type).parts

/-- The kind of value that loading a constant puts on the stack. -/
def Loadable.kind : Loadable → ComputationalType
  | integer _ => .int
  | float _ => .float
  | long _ => .long
  | double _ => .double
  | string _ | methodType _ => .reference

theorem Loadable.width_kind (constant : Loadable) : constant.kind.width = constant.width := by
  cases constant <;> rfl

/-- The slots of an operand stack, from the top downwards. -/
abbrev OperandStack := List Slot

namespace OperandStack

/-- Puts a value on top. -/
def push (kind : ComputationalType) (stack : OperandStack) : OperandStack :=
  kind.parts.reverse ++ stack

/-- Takes slots off the top. -/
def drop? (count : Nat) (stack : OperandStack) : Option OperandStack :=
  if count ≤ stack.length then some (stack.drop count) else none

/-- Copies slots from the top, and puts the copy below so many further slots. -/
def copy? (copied under : Nat) (stack : OperandStack) : Option OperandStack :=
  if copied + under ≤ stack.length then
    some (stack.take (copied + under) ++ stack.take copied ++ stack.drop (copied + under))
  else none

theorem length_push (kind : ComputationalType) (stack : OperandStack) :
    (push kind stack).length = kind.width + stack.length := by
  simp [push]

theorem isSome_drop? (count : Nat) (stack : OperandStack) :
    (stack.drop? count).isSome = true ↔ count ≤ stack.length := by
  unfold drop?
  split <;> simp_all

theorem isSome_copy? (copied under : Nat) (stack : OperandStack) :
    (stack.copy? copied under).isSome = true ↔ copied + under ≤ stack.length := by
  unfold copy?
  split <;> simp_all

theorem length_drop? {count : Nat} {stack next : OperandStack} (h : stack.drop? count = some next) :
    next.length + count = stack.length := by
  unfold drop? at h
  split at h
  · cases h
    simp only [List.length_drop]
    omega
  · cases h

theorem length_copy? {copied under : Nat} {stack next : OperandStack}
    (h : stack.copy? copied under = some next) : next.length = stack.length + copied := by
  unfold copy? at h
  split at h
  · cases h
    simp only [List.length_append, List.length_take, List.length_drop]
    omega
  · cases h

end OperandStack

/-! ## Steps -/

namespace Instruction

open OperandStack

/-- The stack after an instruction; none if the stack does not hold what the instruction
takes, or if a call has a descriptor that is not one. -/
def step? (stack : OperandStack) : Instruction → Option OperandStack
  | nop => some stack
  | aconstNull => some (stack.push .reference)
  | iconst _ | bipush _ | sipush _ => some (stack.push .int)
  | lconst _ => some (stack.push .long)
  | fconst _ => some (stack.push .float)
  | dconst _ => some (stack.push .double)
  | ldc constant => some (stack.push constant.kind)
  | load kind _ => some (stack.push kind)
  | store kind _ => stack.drop? kind.width
  | pop group => stack.drop? group.slots
  | dup copied under => stack.copy? copied.slots under.slots
  | swap =>
    match stack with
    | first :: second :: rest => some (second :: first :: rest)
    | _ => none
  | ret none => some stack
  | ret (some kind) => stack.drop? kind.width
  | invoke call =>
    match MethodType.parse call.descriptor with
    | .error _ => none
    | .ok type =>
      match stack.drop? (type.argumentSlots call.kind.hasReceiver) with
      | none => none
      | some stack =>
        match type.returnType with
        | none => some stack
        | some returned => some (stack.push (.ofType returned))

/-- The stacks after each of the instructions in turn; none if one of them is not possible. -/
def run? (stack : OperandStack) : List Instruction → Option (List OperandStack)
  | [] => some []
  | instruction :: rest =>
    match instruction.step? stack with
    | none => none
    | some next => (run? next rest).map (next :: ·)

theorem length_step? {i : Instruction} {flow : SlotFlow} {stack next : OperandStack}
    (hflow : i.flow = .ok flow) (h : i.step? stack = some next) :
    next.length + flow.popped = stack.length + flow.pushed := by
  cases i with
  | swap =>
    cases hflow
    match stack, h with
    | _ :: _ :: _, h =>
      cases h
      rfl
  | dup copied under =>
    cases hflow
    have := length_copy? h
    simp only
    omega
  | pop group =>
    cases hflow
    exact length_drop? h
  | store kind index =>
    cases hflow
    exact length_drop? h
  | ret kind =>
    cases hflow
    cases kind with
    | none =>
      cases h
      rfl
    | some kind => exact length_drop? h
  | invoke call =>
    simp only [Instruction.flow, MethodCall.flow, MethodType.ofDescriptor] at hflow
    simp only [step?] at h
    cases htype : MethodType.parse call.descriptor with
    | error fault =>
      rw [htype] at h
      cases h
    | ok type =>
      rw [htype] at h hflow
      cases hflow
      simp only at h
      cases hdrop : stack.drop? (type.argumentSlots call.kind.hasReceiver) with
      | none =>
        rw [hdrop] at h
        cases h
      | some below =>
        rw [hdrop] at h
        have hlength := length_drop? hdrop
        simp only [MethodType.returnSlots]
        cases hreturned : type.returnType with
        | none =>
          simp only [hreturned] at h
          cases h
          simpa using hlength
        | some returned =>
          simp only [hreturned] at h
          cases h
          simp only [length_push, ComputationalType.ofType_width]
          omega
  | nop =>
    cases hflow
    cases h
    rfl
  | ldc constant =>
    cases hflow
    cases h
    simp only [length_push, Loadable.width_kind]
    omega
  | load kind index =>
    cases hflow
    cases h
    simp only [length_push]
    omega
  | aconstNull | iconst _ | lconst _ | fconst _ | dconst _ | bipush _ | sipush _ =>
    cases hflow
    cases h
    simp only [length_push, ComputationalType.width, ComputationalType.size, ValueSize.slots]
    omega

theorem isSome_step?_iff {i : Instruction} {stack : OperandStack} :
    (i.step? stack).isSome = true ↔ ∃ flow, i.flow = .ok flow ∧ flow.popped ≤ stack.length := by
  have known : ∀ {flow : SlotFlow} {P : Prop}, i.flow = .ok flow →
      (P ↔ flow.popped ≤ stack.length) →
      (P ↔ ∃ flow, i.flow = .ok flow ∧ flow.popped ≤ stack.length) := by
    intro flow P hflow h
    rw [h]
    constructor
    · exact fun room => ⟨flow, hflow, room⟩
    · rintro ⟨other, hother, room⟩
      rw [hflow] at hother
      cases hother
      exact room
  cases i with
  | swap =>
    refine known rfl ?_
    match stack with
    | [] => simp [step?]
    | [_] => simp [step?]
    | _ :: _ :: _ => simp [step?]
  | dup copied under => exact known rfl (isSome_copy? ..)
  | pop group => exact known rfl (isSome_drop? ..)
  | store kind index => exact known rfl (isSome_drop? ..)
  | ret kind =>
    cases kind with
    | none => exact known rfl (by simp [step?, ReturnKind.size, ValueSize.slots])
    | some kind => exact known rfl (isSome_drop? ..)
  | invoke call =>
    cases htype : MethodType.parse call.descriptor with
    | error fault =>
      simp [step?, htype, Instruction.flow, MethodCall.flow, MethodType.ofDescriptor]
    | ok type =>
      have hflow : (invoke call).flow
          = .ok ⟨type.argumentSlots call.kind.hasReceiver, type.returnSlots⟩ := by
        simp [Instruction.flow, MethodCall.flow, MethodType.ofDescriptor, htype]
      refine known hflow ?_
      rw [← isSome_drop?]
      simp only [step?, htype]
      cases stack.drop? (type.argumentSlots call.kind.hasReceiver) with
      | none => simp
      | some below => cases type.returnType <;> simp
  | nop | ldc _ | load _ _ | aconstNull | iconst _ | lconst _ | fconst _ | dconst _ | bipush _
  | sipush _ => exact known rfl (by simp [step?])

end Instruction

end JvmCode
