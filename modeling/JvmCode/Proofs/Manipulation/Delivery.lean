import JvmCode.Manipulation.Leaves
import JvmCode.Proofs.Manipulation.Script
import JvmCode.Proofs.StackEffect.AnyGrouping
/-!
# What a manipulation delivers

The leaves of a manipulation decide what it does: each hands over at most one instruction and
declares its own effect. A manipulation succeeds just if all its leaves have something to hand
over (`Deliverable`) and the sink takes it, from left to right, and the declared effect is then
the sum of those of the leaves, however the compounds between them are nested.

## Main results

* `performs_apply`: a manipulation goes by its script, whatever sink it has.
* `Primitive.script_cases`: the script of the leaves.
* `apply_takes`: what the sink of a manipulation that succeeds has taken.
* `exists_apply`: a manipulation succeeds if its sink takes what it hands over.
-/

namespace JvmCode

variable {σ : Type} [MethodSink σ] {target : TargetClass}

/-! ## Primitives -/

namespace Primitive

/-- What is handed over, if something is. -/
def Delivery.visit? : Delivery → Option Visit
  | nothing => none
  | instruction delivered => some (.instruction delivered)
  | call delivered => some (.call delivered)

/-- What a primitive hands over in a class. -/
def visits (target : TargetClass) (primitive : Primitive) : List Visit :=
  match primitive.delivery target with
  | .ok delivery => delivery.visit?.toList
  | .error _ => []

/-- Whether it is nothing, an instruction or a call, handing it over is a script of its own. -/
theorem Delivery.performs_hand (delivery : Delivery) :
    Performs (σ := σ) delivery.hand ⟨delivery.visit?.toList, .ok ()⟩ := by
  cases delivery with
  | nothing => exact .pure ()
  | instruction delivered => exact .hand (.instruction delivered)
  | call delivered => exact .hand (.call delivered)

/-- What a primitive hands over in a class, and whether it can be applied there. -/
def ownScript (target : TargetClass) (primitive : Primitive) : Script Unit :=
  ⟨primitive.visits target, (primitive.delivery target).map fun _ => ()⟩

/-- What primitives hand over in turn, up to the first that cannot be applied. -/
def script (target : TargetClass) : List Primitive → Script Unit
  | [] => .answer ()
  | leaf :: rest => (leaf.ownScript target).andThen fun () => script target rest

/-- A primitive hands over what it has, and declares its effect. -/
theorem performs_apply (target : TargetClass) (primitive : Primitive) :
    Performs (σ := σ) (primitive.apply target)
      ((primitive.ownScript target).andThen fun () => .answer primitive.effect) := by
  unfold apply ownScript visits
  cases primitive.delivery target with
  | error error => exact .throw error
  | ok delivery => exact delivery.performs_hand.bind fun _ _ => .pure primitive.effect

theorem script_append (target : TargetClass) (leaves more : List Primitive) :
    script target (leaves ++ more)
      = (script target leaves).andThen fun () => script target more := by
  induction leaves with
  | nil => rfl
  | cons leaf leaves ih => rw [List.cons_append, script, ih, script, Script.andThen_assoc]

/-- Primitives that can all be applied hand everything over. Otherwise there is a first one that
cannot, and only those before it hand something over. -/
theorem script_cases (target : TargetClass) (leaves : List Primitive) :
    ((∀ leaf ∈ leaves, ∃ delivery, leaf.delivery target = .ok delivery) ∧
      script target leaves = ⟨leaves.flatMap (visits target), .ok ()⟩) ∨
    ∃ before leaf after error, leaves = before ++ leaf :: after ∧
      (∀ earlier ∈ before, ∃ delivery, earlier.delivery target = .ok delivery) ∧
      leaf.delivery target = .error error ∧
      script target leaves = ⟨before.flatMap (visits target), .error error⟩ := by
  induction leaves with
  | nil => exact .inl ⟨fun _ none => absurd none List.not_mem_nil, rfl⟩
  | cons leaf leaves ih =>
      rw [script, ownScript, Script.andThen]
      cases delivered : leaf.delivery target with
      | error error =>
          refine .inr ⟨[], leaf, leaves, error, rfl, ?_, delivered, ?_⟩
          · exact fun _ none => absurd none List.not_mem_nil
          · rw [visits, delivered]
            rfl
      | ok delivery =>
          simp only [Except.map]
          rcases ih with ⟨all, rest⟩ | ⟨before, stopped, after, error, rfl, all, failed, rest⟩
          · rw [rest]
            exact .inl ⟨List.forall_mem_cons.mpr ⟨⟨delivery, delivered⟩, all⟩, rfl⟩
          · rw [rest]
            refine .inr ⟨leaf :: before, stopped, after, error, rfl, ?_, failed, rfl⟩
            exact List.forall_mem_cons.mpr ⟨⟨delivery, delivered⟩, all⟩

/-- What cannot be applied is refused before it hands anything over. -/
theorem delivery_of_invalid {primitive : Primitive} (invalid : primitive.isValid = false) :
    primitive.delivery target = .error .illegalManipulation := by
  cases primitive with
  | illegal => rfl
  | duplicate duplication =>
      have isInvalid : duplication.isValid = false := invalid
      rw [delivery, isInvalid]
      rfl
  | _ => cases invalid

theorem isValid_of_delivery {primitive : Primitive} {delivery : Delivery}
    (delivered : primitive.delivery target = .ok delivery) : primitive.isValid = true := by
  cases valid : primitive.isValid with
  | true => rfl
  | false =>
      rw [delivery_of_invalid valid] at delivered
      cases delivered

/-- What primitives declare ends no higher than its peak. -/
theorem sound_of_mem_effects {primitives : List Primitive} :
    ∀ declared ∈ primitives.map effect, declared.Sound :=
  List.forall_mem_map.mpr fun primitive _ => primitive.sound_effect

end Primitive

/-! ## Trees -/

namespace Manipulation

/-- What a manipulation hands over in a class, if nothing is refused. -/
def visits (target : TargetClass) (manipulation : Manipulation) : List Visit :=
  manipulation.leaves.flatMap (Primitive.visits target)

/-- The sum of the effects of the leaves. -/
def leafEffect (manipulation : Manipulation) : StackEffect :=
  .sum (manipulation.leaves.map Primitive.effect)

/-- Every leaf has something to hand over in a class, be it nothing. -/
def Deliverable (target : TargetClass) (manipulation : Manipulation) : Prop :=
  ∀ leaf ∈ manipulation.leaves, ∃ delivery, leaf.delivery target = .ok delivery

theorem sound_leafEffect (manipulation : Manipulation) : manipulation.leafEffect.Sound :=
  StackEffect.sound_sum Primitive.sound_of_mem_effects

theorem leafEffect_step (primitive : Primitive) :
    (step primitive).leafEffect = primitive.effect := by
  rw [leafEffect, leaves_step]
  exact StackEffect.none_aggregate _

theorem leafEffect_cons (part : Manipulation) (parts : List Manipulation) :
    (compound (part :: parts)).leafEffect
      = part.leafEffect.aggregate (compound parts).leafEffect := by
  rw [leafEffect, leaves_compound, List.flatMap_cons, List.map_append,
    StackEffect.sum_append Primitive.sound_of_mem_effects Primitive.sound_of_mem_effects,
    leafEffect, leafEffect, leaves_compound]

theorem Deliverable.isValid {manipulation : Manipulation}
    (deliverable : manipulation.Deliverable target) : manipulation.isValid = true := by
  rw [isValid_iff_leaves]
  intro leaf member
  obtain ⟨delivery, delivered⟩ := deliverable leaf member
  exact Primitive.isValid_of_delivery delivered

/-- What a manipulation hands over in a class, and how it ends if nothing is refused: with the
first leaf that cannot be applied there, or with its effect. An invalid one ends at once. -/
def script (target : TargetClass) (manipulation : Manipulation) : Script StackEffect :=
  if manipulation.isValid then
    (Primitive.script target manipulation.leaves).andThen fun () => .answer manipulation.leafEffect
  else .stop .illegalManipulation

theorem script_of_invalid {manipulation : Manipulation} (invalid : manipulation.isValid = false) :
    manipulation.script target = .stop .illegalManipulation := by
  rw [script, invalid]
  rfl

mutual

/-- A valid manipulation goes by the script of its leaves. -/
theorem performs_apply_of_valid (manipulation : Manipulation)
    (valid : manipulation.isValid = true) :
    Performs (σ := σ) (apply target manipulation)
      ((Primitive.script target manipulation.leaves).andThen
        fun () => .answer manipulation.leafEffect) := by
  cases manipulation with
  | step primitive =>
      rw [apply_step, leaves_step, leafEffect_step, Primitive.script, Script.andThen_assoc]
      exact primitive.performs_apply target
  | compound parts =>
      have all := performs_applyAll parts StackEffect.sound_none ((isValid_compound parts).mp valid)
      rw [StackEffect.none_aggregate] at all
      rw [apply_compound_of_valid valid]
      exact all

/-- The same for a sequence that is applied after others, whose effect is the total. -/
theorem performs_applyAll (parts : List Manipulation) {total : StackEffect} (sound : total.Sound)
    (valid : ∀ part ∈ parts, part.isValid = true) :
    Performs (σ := σ) (applyAll target total parts)
      ((Primitive.script target (compound parts).leaves).andThen
        fun () => .answer (total.aggregate (compound parts).leafEffect)) := by
  cases parts with
  | nil =>
      have unchanged : total.aggregate (compound []).leafEffect = total :=
        StackEffect.aggregate_none sound
      rw [applyAll_nil, unchanged]
      exact .pure total
  | cons part parts =>
      obtain ⟨own, others⟩ := List.forall_mem_cons.mp valid
      have leaves : (compound (part :: parts)).leaves = part.leaves ++ (compound parts).leaves := by
        rw [leaves_compound, List.flatMap_cons, leaves_compound]
      rw [applyAll_cons, leaves, Primitive.script_append, Script.andThen_assoc, leafEffect_cons,
        ← StackEffect.aggregate_assoc]
      have first := performs_apply_of_valid part own
      have rest : ∀ effect, ((Primitive.script target part.leaves).andThen
            fun () => Script.answer part.leafEffect).ending = .ok effect →
          Performs (σ := σ) (do
              Emission.log (.applied part effect)
              applyAll target (total.aggregate effect) parts)
            ((Primitive.script target (compound parts).leaves).andThen fun () =>
              .answer
                ((total.aggregate part.leafEffect).aggregate (compound parts).leafEffect)) := by
        intro effect isOwn
        obtain rfl := Script.eq_of_ending_andThen_answer isOwn
        exact (Performs.log _).bind fun _ _ =>
          performs_applyAll parts (StackEffect.sound_aggregate part.sound_leafEffect) others
      have both := first.bind rest
      rw [Script.andThen_assoc] at both
      exact both

end

/-- Every manipulation goes by its script, whatever sink it has. -/
theorem performs_apply (target : TargetClass) (manipulation : Manipulation) :
    Performs (σ := σ) (apply target manipulation) (manipulation.script target) := by
  cases valid : manipulation.isValid with
  | true =>
      rw [script, if_pos valid]
      exact performs_apply_of_valid manipulation valid
  | false =>
      rw [script_of_invalid valid]
      intro state
      cases manipulation with
      | step primitive =>
          have refused : primitive.delivery target = .error .illegalManipulation :=
            Primitive.delivery_of_invalid valid
          rw [apply_step, Primitive.apply, refused]
          rfl
      | compound parts =>
          obtain ⟨record, refused⟩ := @apply_compound_of_invalid σ _ target parts valid state
          rw [refused]
          rfl

/-! ## Manipulations that succeed -/

/-- Where all leaves can be applied, they hand everything over. -/
theorem script_of_deliverable {manipulation : Manipulation}
    (deliverable : manipulation.Deliverable target) :
    manipulation.script target = ⟨manipulation.visits target, .ok manipulation.leafEffect⟩ := by
  rw [script, if_pos deliverable.isValid]
  rcases Primitive.script_cases target manipulation.leaves with
    ⟨_, whole⟩ | ⟨before, leaf, after, error, cut, _, failed, _⟩
  · rw [whole, Script.andThen_answer]
    rfl
  · obtain ⟨delivery, delivered⟩ := deliverable leaf (by rw [cut]; simp)
    rw [failed] at delivered
    cases delivered

/-- A script that ends with an answer is that of a manipulation whose leaves can be applied. -/
theorem deliverable_of_ending {manipulation : Manipulation} {effect : StackEffect}
    (ends : (manipulation.script target).ending = .ok effect) :
    manipulation.Deliverable target := by
  unfold script at ends
  split at ends
  · rcases Primitive.script_cases target manipulation.leaves with
      ⟨deliverable, _⟩ | ⟨_, _, _, _, _, _, _, stopped⟩
    · exact deliverable
    · rw [stopped] at ends
      cases ends
  · cases ends

/-- When a manipulation succeeds, the sink has taken what its leaves hand over, and their effects
are what it declares. -/
theorem apply_takes (manipulation : Manipulation) {state after : Emitting σ}
    {declared : StackEffect} (applied : apply target manipulation state = .ok declared after) :
    Takes state.sink (manipulation.visits target) after.sink ∧
      declared = manipulation.leafEffect := by
  have performed := performs_apply target manipulation state
  rw [applied] at performed
  obtain ⟨taken, ends⟩ := Script.perform_eq_ok_iff.mp performed.symm
  rw [script_of_deliverable (deliverable_of_ending ends)] at taken ends
  exact ⟨taken, (Except.ok.inj ends).symm⟩

/-- A manipulation succeeds if the sink takes what its leaves hand over. -/
theorem exists_apply (manipulation : Manipulation) {state : Emitting σ} {final : σ}
    (deliverable : manipulation.Deliverable target)
    (taken : Takes state.sink (manipulation.visits target) final) :
    ∃ after, apply target manipulation state = .ok manipulation.leafEffect after ∧
      after.sink = final := by
  have performed := performs_apply target manipulation state
  rw [script_of_deliverable deliverable, Script.perform_of_takes taken] at performed
  exact Emission.outcome_eq_ok_iff.mp performed

end Manipulation

end JvmCode
