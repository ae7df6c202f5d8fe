import JvmCode.Manipulation.Leaves
import JvmCode.Proofs.Descriptor.RoundTrip
import JvmCode.Proofs.Manipulation.Emission
import JvmCode.Sink.StackMeter
/-!
# Declared and measured effects

Applying a manipulation answers the effect it declares, made of what its primitives declare.
A meter in front of the sink accounts for the instructions that are delivered, and reads the
descriptors of calls for that. The two accounts differ in one place: a call of a method handle
takes the handle off the stack, which the declared effect leaves out.

`Accounts` says of a declared and a measured effect that they agree up to a number of handles.
It holds of every delivered instruction and is kept by aggregation, so it holds of every tree
of manipulations (`apply_accounts`).

## Main results

* `Accounts.aggregate`: accounts of two pieces of code in turn.
* `actual_eq_effect`, `exists_actual`: accounts of one primitive.
* `apply_accounts`: what a meter measures while a manipulation is applied.
* `declared_accounts`: the same from a fresh meter.
-/

namespace JvmCode

/-! ## Accounts -/

namespace StackEffect

/-- The declared effect is the actual one, but for the handles of so many calls: it counts them
as still being there. -/
structure Accounts (calls : Nat) (declared actual : StackEffect) : Prop where
  impact_eq : actual.impact = declared.impact - calls
  maximal_le : actual.maximal ≤ declared.maximal
  le_maximal : declared.maximal ≤ actual.maximal + calls

namespace Accounts

theorem refl (effect : StackEffect) : Accounts 0 effect effect where
  impact_eq := by omega
  maximal_le := Nat.le_refl _
  le_maximal := Nat.le_refl _

/-- Without handle calls there is no difference. -/
theorem eq_of_zero {declared actual : StackEffect} (h : Accounts 0 declared actual) :
    actual = declared := by
  obtain ⟨impact, maximal⟩ := declared
  obtain ⟨actualImpact, actualMaximal⟩ := actual
  obtain ⟨impact_eq, maximal_le, le_maximal⟩ := h
  have sameImpact : actualImpact = impact := by simpa using impact_eq
  have sameMaximal : actualMaximal = maximal := Nat.le_antisymm maximal_le le_maximal
  rw [sameImpact, sameMaximal]

/-- A handle that was left out of the first account is missing at every point of the second. -/
theorem aggregate {first second : Nat} {a b c d : StackEffect} (h : Accounts first a b)
    (h' : Accounts second c d) : Accounts (first + second) (a.aggregate c) (b.aggregate d) := by
  have impact := h.impact_eq
  have impact' := h'.impact_eq
  have low := h.maximal_le
  have low' := h'.maximal_le
  have high := h.le_maximal
  have high' := h'.le_maximal
  refine ⟨?_, ?_, ?_⟩
  · show b.impact + d.impact = a.impact + c.impact - ((first + second : Nat) : Int)
    omega
  · show max b.maximal (b.impact + d.maximal).toNat ≤ max a.maximal (a.impact + c.maximal).toNat
    omega
  · show max a.maximal (a.impact + c.maximal).toNat
      ≤ max b.maximal (b.impact + d.maximal).toNat + (first + second)
    omega

end Accounts

end StackEffect

open StackEffect (Accounts)

/-! ## Single instructions -/

/-- What one instruction with the flow does to the stack: it is never below its end. -/
def SlotFlow.effect (flow : SlotFlow) : StackEffect :=
  let impact : Int := (flow.pushed : Int) - flow.popped
  ⟨impact, impact.toNat⟩

namespace SlotFlow

theorem sound_effect (flow : SlotFlow) : flow.effect.Sound := Int.self_le_toNat _

theorem effect_push (slots : Nat) : effect ⟨0, slots⟩ = .push slots := by
  simp [effect, StackEffect.push]

theorem effect_pop (slots : Nat) : effect ⟨slots, 0⟩ = .pop slots := by
  simp [effect, StackEffect.pop]

/-- A copy is put on the stack, wherever it goes. -/
theorem effect_copy (copied under : Nat) :
    effect ⟨copied + under, 2 * copied + under⟩ = .push copied := by
  have impact : ((2 * copied + under : Nat) : Int) - (copied + under : Nat) = copied := by omega
  rw [effect]
  simp only [impact, StackEffect.push, Int.toNat_natCast]

end SlotFlow

/-- What a meter accounts for when it is handed what a primitive delivers. -/
def Primitive.Delivery.actual : Primitive.Delivery → Except EmitError StackEffect
  | nothing => .ok .none
  | instruction delivered => delivered.flow.map SlotFlow.effect
  | call delivered => delivered.flow.map SlotFlow.effect

namespace HandleInvocation

/-- The descriptor of a call is that of a method type, so the flow of the call is known. -/
theorem flow_call (invocation : HandleInvocation) :
    invocation.call.flow
      = .ok ⟨invocation.methodType.argumentSlots true, invocation.methodType.returnSlots⟩ := by
  have parsed : MethodType.parse invocation.call.descriptor = .ok invocation.methodType :=
    invocation.methodType.parse_descriptor
  rw [MethodCall.flow, MethodType.ofDescriptor, parsed]
  rfl

theorem accounts_call (invocation : HandleInvocation) :
    Accounts 1 invocation.effect
      (SlotFlow.effect ⟨invocation.methodType.argumentSlots true,
        invocation.methodType.returnSlots⟩) := by
  have slots : invocation.methodType.argumentSlots true
      = invocation.methodType.parameterSlots + 1 := rfl
  rw [slots]
  refine ⟨?_, ?_, ?_⟩
  all_goals
    simp only [effect, SlotFlow.effect]
    omega

end HandleInvocation

namespace Primitive

variable {target : TargetClass} {primitive : Primitive} {delivery : Delivery}

theorem flow_intInstruction (value : Int32) : (intInstruction value).flow = .ok ⟨0, 1⟩ := by
  unfold intInstruction
  simp only
  split
  · rfl
  · split
    · rfl
    · split <;> rfl

theorem flow_longInstruction (value : Int64) : (longInstruction value).flow = .ok ⟨0, 2⟩ := by
  unfold longInstruction
  split
  · rfl
  · split <;> rfl

theorem flow_floatInstruction (value : Binary32) : (floatInstruction value).flow = .ok ⟨0, 1⟩ := by
  unfold floatInstruction
  split
  · rfl
  · split
    · rfl
    · split <;> rfl

theorem flow_doubleInstruction (value : Binary64) :
    (doubleInstruction value).flow = .ok ⟨0, 2⟩ := by
  unfold doubleInstruction
  split
  · rfl
  · split <;> rfl

theorem actual_dup (group : SlotGroup) (under : ValueSize) :
    (Delivery.instruction (.dup group under)).actual = .ok (.push group.slots) := by
  show Except.ok (SlotFlow.effect ⟨group.slots + under.slots, 2 * group.slots + under.slots⟩) = _
  rw [SlotFlow.effect_copy]

theorem actual_duplication {duplication : Duplication} (valid : duplication.isValid = true) :
    (Delivery.ofInstruction? duplication.instruction?).actual
      = .ok duplication.valueSize.pushed := by
  cases duplication with
  | plain value =>
      cases value with
      | zero => rfl
      | single => exact actual_dup .one .zero
      | double => exact actual_dup .two .zero
  | flipOver value under =>
      by_cases nothing : under = .zero
      · subst nothing
        cases value <;> cases valid
      · rw [Duplication.instruction?, if_neg nothing]
        cases value with
        | zero => cases valid
        | single => exact actual_dup .one under
        | double => exact actual_dup .two under

theorem actual_removal (size : ValueSize) :
    (Delivery.ofInstruction? (size.group?.map .pop)).actual = .ok size.popped := by
  cases size <;> rfl

/-- What is delivered does what the primitive declares, unless it calls a method handle. -/
theorem actual_eq_effect (delivered : primitive.delivery target = .ok delivery)
    (plain : primitive.callsHandle = false) : delivery.actual = .ok primitive.effect := by
  have pushes : ∀ {instruction : Instruction} {slots : Nat}, instruction.flow = .ok ⟨0, slots⟩ →
      (Delivery.instruction instruction).actual = .ok (.push slots) := by
    intro instruction slots flow
    rw [Delivery.actual, flow, ← SlotFlow.effect_push]
    rfl
  have pops : ∀ {instruction : Instruction} {slots : Nat}, instruction.flow = .ok ⟨slots, 0⟩ →
      (Delivery.instruction instruction).actual = .ok (.pop slots) := by
    intro instruction slots flow
    rw [Delivery.actual, flow, ← SlotFlow.effect_pop]
    rfl
  cases primitive with
  | invokeHandle invocation => cases plain
  | illegal => cases delivered
  | trivial => cases delivered; rfl
  | int value => cases delivered; exact pushes (flow_intInstruction value)
  | long value => cases delivered; exact pushes (flow_longInstruction value)
  | float value => cases delivered; exact pushes (flow_floatInstruction value)
  | double value => cases delivered; exact pushes (flow_doubleInstruction value)
  | null => cases delivered; exact pushes rfl
  | text value => cases delivered; exact pushes rfl
  | methodType value =>
      unfold Primitive.delivery at delivered
      simp only at delivered
      split at delivered
      · cases delivered
      · cases delivered
        exact pushes rfl
  | duplicate duplication =>
      unfold Primitive.delivery at delivered
      simp only at delivered
      split at delivered
      · next valid =>
          cases delivered
          exact actual_duplication valid
      · cases delivered
  | remove size => cases delivered; exact actual_removal size
  | load kind index => cases delivered; exact pushes rfl
  | store kind index => cases delivered; exact pops rfl
  | ret kind => cases delivered; exact pops rfl

/-- What is delivered is accounted for, with one handle missing for a call of one. -/
theorem exists_actual (delivered : primitive.delivery target = .ok delivery) :
    ∃ actual, delivery.actual = .ok actual ∧ actual.Sound ∧
      Accounts (if primitive.callsHandle then 1 else 0) primitive.effect actual := by
  cases calls : primitive.callsHandle with
  | false =>
      exact ⟨_, actual_eq_effect delivered calls, primitive.sound_effect, .refl _⟩
  | true =>
      cases primitive with
      | invokeHandle invocation =>
          cases delivered
          refine ⟨_, ?_, SlotFlow.sound_effect _, invocation.accounts_call⟩
          rw [Delivery.actual, invocation.flow_call]
          rfl
      | _ => cases calls

end Primitive

/-! ## What a meter measures -/

variable {σ : Type} [MethodSink σ]

namespace StackMeter

/-- An instruction whose flow is known, by what the sink behind the meter answers. -/
theorem accept_of_flow {instruction : Instruction} {flow : SlotFlow}
    (known : instruction.flow = .ok flow) (meter : StackMeter σ) :
    let reply := MethodSink.accept instruction meter.inner
    let depth := depthAfter meter.depth flow
    accept instruction meter =
      match reply.outcome with
      | .ok () => ⟨⟨reply.sink, depth, max meter.peak depth.toNat⟩, .ok (), reply.log⟩
      | .error error => ⟨⟨reply.sink, meter.depth, meter.peak⟩, .error error, reply.log⟩ := by
  obtain ⟨inner, depth, peak⟩ := meter
  rw [accept, known]
  rcases MethodSink.accept instruction inner with ⟨next, outcome, log⟩
  cases outcome <;> rfl

/-- An accepted instruction is added to what was observed before. -/
theorem observed_accept {instruction : Instruction} {meter : StackMeter σ}
    (sound : meter.observed.Sound) {effect : StackEffect}
    (known : instruction.flow.map SlotFlow.effect = .ok effect)
    (accepted : (accept instruction meter).outcome = .ok ()) :
    (accept instruction meter).sink.observed = meter.observed.aggregate effect := by
  cases isFlow : instruction.flow with
  | error error =>
      rw [isFlow] at known
      cases known
  | ok flow =>
      rw [isFlow] at known
      cases known
      rw [accept_of_flow isFlow] at accepted ⊢
      cases answer : (MethodSink.accept instruction meter.inner).outcome with
      | error error =>
          rw [answer] at accepted
          cases accepted
      | ok done =>
          have below : meter.depth ≤ meter.peak := sound
          simp only [observed, StackEffect.aggregate, SlotFlow.effect, depthAfter,
            StackEffect.mk.injEq]
          omega

/-- A meter refuses no call of a method handle: the answer is that of the sink behind it. -/
theorem outcome_acceptCall (invocation : HandleInvocation) (meter : StackMeter σ) :
    (MethodSink.acceptCall invocation.call meter).outcome
      = (MethodSink.accept (.invoke invocation.call) meter.inner).outcome := by
  have known : (Instruction.invoke invocation.call).flow = .ok _ := invocation.flow_call
  show (accept (.invoke invocation.call) meter).outcome = _
  rw [accept_of_flow known]
  cases (MethodSink.accept (.invoke invocation.call) meter.inner).outcome <;> rfl

end StackMeter

theorem Primitive.Delivery.observed_hand {delivery : Primitive.Delivery}
    {state after : Emitting (StackMeter σ)} (sound : state.sink.observed.Sound)
    {actual : StackEffect} (known : delivery.actual = .ok actual)
    (handed : delivery.hand state = .ok () after) :
    after.sink.observed = state.sink.observed.aggregate actual := by
  cases delivery with
  | nothing =>
      obtain ⟨_, rfl⟩ := Emission.pure_eq_ok_iff.mp handed
      cases known
      exact (StackEffect.aggregate_none sound).symm
  | instruction delivered =>
      obtain ⟨accepted, rfl⟩ := Emission.hand_eq_ok_iff.mp handed
      exact StackMeter.observed_accept sound known accepted
  | call delivered =>
      obtain ⟨accepted, rfl⟩ := Emission.hand_eq_ok_iff.mp handed
      exact @StackMeter.observed_accept σ _ (.invoke delivered) _ sound _ known accepted

namespace Manipulation

theorem handleCalls_step (primitive : Primitive) :
    (step primitive).handleCalls = if primitive.callsHandle then 1 else 0 := by
  rw [handleCalls, leaves_step, List.countP_singleton]

theorem handleCalls_nil : (compound []).handleCalls = 0 := by
  rw [handleCalls, leaves_compound]
  rfl

theorem handleCalls_cons (part : Manipulation) (parts : List Manipulation) :
    (compound (part :: parts)).handleCalls
      = part.handleCalls + (compound parts).handleCalls := by
  rw [handleCalls, leaves_compound, List.flatMap_cons, List.countP_append, handleCalls,
    handleCalls, leaves_compound]

variable {target : TargetClass}

mutual

/-- What a meter measures while a manipulation is applied, from any state of the meter, is the
declared effect but for the handles that are called. -/
theorem apply_accounts (manipulation : Manipulation) {state after : Emitting (StackMeter σ)}
    {declared : StackEffect} (sound : state.sink.observed.Sound)
    (applied : apply target manipulation state = .ok declared after) :
    ∃ actual, Accounts manipulation.handleCalls declared actual ∧ actual.Sound ∧
      after.sink.observed = state.sink.observed.aggregate actual := by
  cases manipulation with
  | step primitive =>
      rw [apply_step] at applied
      obtain ⟨delivery, delivered, handed, rfl⟩ := Primitive.apply_eq_ok_iff.mp applied
      obtain ⟨actual, known, isSound, accounts⟩ := Primitive.exists_actual delivered
      rw [handleCalls_step]
      exact ⟨actual, accounts, isSound, Primitive.Delivery.observed_hand sound known handed⟩
  | compound parts =>
      obtain ⟨_, all⟩ := apply_compound_eq_ok_iff.mp applied
      have start := (StackEffect.aggregate_none sound).symm
      obtain ⟨actual, accounts, rest⟩ :=
        applyAll_accounts parts (.refl .none) StackEffect.sound_none sound start all
      rw [Nat.zero_add] at accounts
      exact ⟨actual, accounts, rest⟩

/-- The same for a sequence, of which some parts were applied before. -/
theorem applyAll_accounts (parts : List Manipulation) {state after : Emitting (StackMeter σ)}
    {start total before declared : StackEffect} {calls : Nat}
    (accounts : Accounts calls total before) (isSound : before.Sound) (sound : start.Sound)
    (observed : state.sink.observed = start.aggregate before)
    (applied : applyAll target total parts state = .ok declared after) :
    ∃ actual, Accounts (calls + (compound parts).handleCalls) declared actual ∧ actual.Sound ∧
      after.sink.observed = start.aggregate actual := by
  cases parts with
  | nil =>
      obtain ⟨rfl, rfl⟩ := applyAll_nil_eq_ok_iff.mp applied
      rw [handleCalls_nil]
      exact ⟨before, accounts, isSound, observed⟩
  | cons part parts =>
      obtain ⟨own, between, first, others⟩ := applyAll_cons_eq_ok_iff.mp applied
      have soundNow : state.sink.observed.Sound := by
        rw [observed]
        exact StackEffect.sound_aggregate isSound
      obtain ⟨actual, ownAccounts, ownSound, measured⟩ := apply_accounts part soundNow first
      have further : between.sink.observed = start.aggregate (before.aggregate actual) := by
        rw [measured, observed, StackEffect.aggregate_assoc]
      let logged : Emitting (StackMeter σ) :=
        { between with log := between.log.push (.applied part own) }
      have same : logged.sink.observed = start.aggregate (before.aggregate actual) := further
      rw [handleCalls_cons, ← Nat.add_assoc]
      exact applyAll_accounts parts (accounts.aggregate ownAccounts)
        (StackEffect.sound_aggregate ownSound) sound same others

end

/-- **Declared effects are measured.** When a manipulation is applied to any sink behind a fresh
meter, the measured impact is the declared one less one slot for every method handle called,
and the declared peak is between the measured one and that with the same slots added. Without
handle calls the effects are equal. The meter itself refuses no handle call. -/
theorem declared_accounts (target : TargetClass) (manipulation : Manipulation) (inner : σ)
    (log : Array LogRecord) :
    (∀ declared after,
      apply target manipulation ⟨StackMeter.start inner, log⟩ = .ok declared after →
      let observed := after.sink.observed
      let calls := manipulation.handleCalls
      observed.impact = declared.impact - calls ∧ observed.maximal ≤ declared.maximal ∧
        declared.maximal ≤ observed.maximal + calls ∧ (calls = 0 → observed = declared)) ∧
    (∀ (invocation : HandleInvocation) (meter : StackMeter σ),
      (MethodSink.acceptCall invocation.call meter).outcome
        = (MethodSink.accept (.invoke invocation.call) meter.inner).outcome) := by
  refine ⟨?_, StackMeter.outcome_acceptCall⟩
  intro declared after applied observed calls
  have fresh : (StackMeter.start inner).observed = .none := rfl
  have sound : (StackMeter.start inner).observed.Sound := StackEffect.sound_none
  obtain ⟨actual, accounts, _, measured⟩ := apply_accounts manipulation sound applied
  have whole : observed = actual := by
    show after.sink.observed = actual
    rw [measured, fresh, StackEffect.none_aggregate]
  rw [whole]
  refine ⟨accounts.impact_eq, accounts.maximal_le, accounts.le_maximal, ?_⟩
  intro none
  have without : Accounts 0 declared actual := none ▸ accounts
  exact without.eq_of_zero

/-- A handle is loaded and called for a `long`: three slots are declared, two are measured. -/
theorem declared_accounts_long :
    let target : TargetClass := ⟨.object, .java7⟩
    let invocation : HandleInvocation := ⟨⟨[], some (.base .long)⟩⟩
    let manipulation := compound [step (.load .reference 0), step (.invokeHandle invocation)]
    let fresh : StackMeter (Array Instruction) := .start #[]
    manipulation.handleCalls = 1 ∧
      ∃ after, apply target manipulation ⟨fresh, #[]⟩ = .ok ⟨3, 3⟩ after ∧
        after.sink.observed.impact = 3 - 1 ∧ 3 ≤ after.sink.observed.maximal + 1 := by
  intro target invocation manipulation fresh
  have calls : manipulation.handleCalls = 1 := by decide
  have run : (match apply target manipulation ⟨fresh, #[]⟩ with
      | .ok declared _ => declared = ⟨3, 3⟩
      | .error _ _ => False) := by
    simp only [target, invocation, manipulation, fresh]
    cbv
  cases applied : apply target manipulation ⟨fresh, #[]⟩ with
  | error error after =>
      rw [applied] at run
      cases run
  | ok declared after =>
      rw [applied] at run
      obtain rfl : declared = ⟨3, 3⟩ := run
      obtain ⟨impact, _, high, _⟩ :=
        (declared_accounts target manipulation #[] #[]).1 ⟨3, 3⟩ after applied
      rw [calls] at impact high
      exact ⟨calls, after, rfl, impact, high⟩

end Manipulation

end JvmCode
