import JvmCode.Proofs.Manipulation.Delivery
/-!
# What comes of applying a manipulation

A manipulation goes by a script that no sink has a part in. So a sink that only collects
instructions shows what any other sink is handed, and what the answer is unless that sink
refuses something.

The script also shows how an application can fail. An invalid manipulation fails before it hands
anything over, however deep the invalid part is. A valid one fails on its own only where it
holds a method type that the class is too old for, and then everything before the first of these
was handed over.

The leaves alone decide about the script. So it makes no difference how they are put into compounds,
as long as their order is the same.

## Main results

* `takes_array`, `Visit.deliver_map_instruction`: collecting sinks, and sinks that make no
  difference between calls and other instructions.
* `apply_regardless_of_sink`: what is emitted does not depend on the sink.
* `Primitive.exists_methodType`: why a valid primitive cannot be applied.
* `apply_by_validity`: how applications fail.
* `interchangeable_of_leaves`: manipulations with the same leaves.
* `nesting_irrelevant`: a manipulation and its leaves in one compound.
-/

namespace JvmCode

variable {σ : Type} [MethodSink σ] {target : TargetClass}

/-! ## Sinks that collect -/

/-- A visit that hands over an instruction, be it as a call. -/
def Visit.Instructs (visit : Visit) : Prop := ∃ instruction, visit.instruction? = some instruction

/-- A sink for which a call is an instruction like any other is handed instructions alone. -/
theorem Visit.hand_eq_accept {visit : Visit} {delivered : Instruction} {sink : σ}
    (alike : ∀ call (sink : σ),
      MethodSink.acceptCall call sink = MethodSink.accept (.invoke call) sink)
    (isInstruction : visit.instruction? = some delivered) :
    visit.hand sink = MethodSink.accept delivered sink := by
  cases visit with
  | instruction => cases isInstruction; rfl
  | call => cases isInstruction; exact alike _ sink
  | limits => cases isInstruction
  | finish => cases isInstruction

/-- A collecting sink takes all instructions. -/
theorem takes_array {visits : List Visit} (instruct : ∀ visit ∈ visits, visit.Instructs)
    (collected : Array Instruction) :
    Takes collected visits (collected ++ (Visit.instructions visits).toArray) := by
  induction visits generalizing collected with
  | nil => exact .nil collected
  | cons visit visits ih =>
      obtain ⟨⟨delivered, isInstruction⟩, others⟩ := List.forall_mem_cons.mp instruct
      have pushes : visit.hand collected = .done (collected.push delivered) :=
        Visit.hand_eq_accept (fun _ _ => rfl) isInstruction
      have rest := ih others (collected.push delivered)
      have whole : collected.push delivered ++ (Visit.instructions visits).toArray
          = collected ++ (Visit.instructions (visit :: visits)).toArray := by
        rw [Visit.instructions, Visit.instructions, List.filterMap_cons, isInstruction]
        simp
      rw [whole] at rest
      refine .cons ?_ ?_
      · rw [pushes]
        rfl
      · rw [pushes]
        exact rest

namespace Visit

theorem map_instruction?_eq {visits : List Visit} (instruct : ∀ visit ∈ visits, visit.Instructs) :
    visits.map instruction? = (instructions visits).map some := by
  induction visits with
  | nil => rfl
  | cons visit visits ih =>
      obtain ⟨⟨delivered, isInstruction⟩, others⟩ := List.forall_mem_cons.mp instruct
      rw [instructions, List.filterMap_cons, isInstruction, List.map_cons, isInstruction,
        ih others]
      rfl

/-- A sink for which a call is an instruction like any other can as well be handed all of them
as instructions. -/
theorem deliver_map_instruction {visits : List Visit}
    (alike : ∀ call (sink : σ),
      MethodSink.acceptCall call sink = MethodSink.accept (.invoke call) sink)
    (instruct : ∀ visit ∈ visits, visit.Instructs) (sink : σ) :
    deliver sink visits = deliver sink ((instructions visits).map instruction) := by
  induction visits generalizing sink with
  | nil => rfl
  | cons visit visits ih =>
      obtain ⟨⟨delivered, isInstruction⟩, others⟩ := List.forall_mem_cons.mp instruct
      have same : visit.hand sink = (Visit.instruction delivered).hand sink :=
        hand_eq_accept alike isInstruction
      rw [instructions, List.filterMap_cons, isInstruction, List.map_cons, deliver, deliver, same]
      split
      · exact ih others _
      · rfl

end Visit

/-! ## Any sink -/

theorem Primitive.instructs_of_mem_visits {primitive : Primitive} {visit : Visit}
    (member : visit ∈ primitive.visits target) : visit.Instructs := by
  unfold visits at member
  split at member
  · next delivery _ =>
      cases delivery with
      | nothing => cases member
      | instruction delivered => cases List.mem_singleton.mp member; exact ⟨_, rfl⟩
      | call delivered => cases List.mem_singleton.mp member; exact ⟨_, rfl⟩
  · cases member

namespace Manipulation

/-- All that a manipulation hands over is instructions. -/
theorem instructs_of_mem_script {manipulation : Manipulation} {visit : Visit}
    (member : visit ∈ (manipulation.script target).visits) : visit.Instructs := by
  unfold script at member
  split at member
  · rw [Script.andThen_answer] at member
    rcases Primitive.script_cases target manipulation.leaves with
      ⟨_, whole⟩ | ⟨_, _, _, _, _, _, _, whole⟩
    all_goals
      rw [whole] at member
      obtain ⟨leaf, _, own⟩ := List.mem_flatMap.mp member
      exact Primitive.instructs_of_mem_visits own
  · cases member

/-- **What is emitted does not depend on the sink.** Let a sink that refuses nothing collect the
instructions of a manipulation, and take the answer it gets. Any other sink is handed the same
instructions, one by one and in order, each as an instruction or as a call. If it refuses one of
them, nothing more is handed over and the answer is its error, if not, the answer is the same.
For a sink that treats calls as instructions it makes no difference how they are handed over. -/
theorem apply_regardless_of_sink (target : TargetClass) (manipulation : Manipulation) :
    let collecting := Emission.outcome (apply target manipulation ⟨(#[] : Array Instruction), #[]⟩)
    let instructions := collecting.1.toList
    let answer := collecting.2
    ∃ visits : List Visit, visits.map Visit.instruction? = instructions.map some ∧
      (∀ (σ : Type) [MethodSink σ] (sink : σ) (log : Array LogRecord),
        Emission.outcome (apply target manipulation ⟨sink, log⟩) =
          match Visit.deliver sink visits with
          | (final, .ok ()) => (final, answer)
          | (final, .error error) => (final, .error error)) ∧
      (∀ (σ : Type) [MethodSink σ],
        (∀ call (sink : σ),
          MethodSink.acceptCall call sink = MethodSink.accept (.invoke call) sink) →
        ∀ sink : σ, Visit.deliver sink visits
          = Visit.deliver sink (instructions.map Visit.instruction)) := by
  intro collecting instructions answer
  let script := manipulation.script target
  have instruct : ∀ visit ∈ script.visits, visit.Instructs :=
    fun _ member => instructs_of_mem_script member
  have collected :
      collecting = (#[] ++ (Visit.instructions script.visits).toArray, script.ending) :=
    (performs_apply target manipulation ⟨#[], #[]⟩).trans
      (Script.perform_of_takes (takes_array instruct #[]))
  have sameInstructions : instructions = Visit.instructions script.visits := by
    show collecting.1.toList = _
    rw [collected]
    simp
  have sameAnswer : answer = script.ending := congrArg Prod.snd collected
  rw [sameInstructions, sameAnswer]
  refine ⟨script.visits, Visit.map_instruction?_eq instruct, ?_, ?_⟩
  · intro σ _ sink log
    exact performs_apply target manipulation ⟨sink, log⟩
  · intro σ _ alike sink
    exact Visit.deliver_map_instruction alike instruct sink

/-- Method code with room for one more byte takes the first of three constants. -/
theorem apply_regardless_of_sink_full :
    let target : TargetClass := ⟨⟨"A", by decide⟩, .java7⟩
    let pushes := compound [step .null, compound [step (.int 1), step (.long 0)]]
    let code : Array UInt8 := Array.replicate 65534 0
    Emission.outcome (apply target pushes ⟨(⟨∅, code, 0, 0⟩ : Assembler), #[]⟩)
      = (⟨∅, code.push 1, 0, 0⟩, .error (.codeTooLong 65536)) := by
  intro target pushes
  suffices ∀ code : Array UInt8, code.size = 65534 →
      Emission.outcome (apply target pushes ⟨(⟨∅, code, 0, 0⟩ : Assembler), #[]⟩)
        = (⟨∅, code.push 1, 0, 0⟩, .error (.codeTooLong 65536)) from
    this _ Array.size_replicate
  intro code size
  obtain ⟨visits, _, anySink, callsAlike⟩ := apply_regardless_of_sink target pushes
  have collected : Emission.outcome (apply target pushes ⟨(#[] : Array Instruction), #[]⟩)
      = (#[.aconstNull, .iconst 2, .lconst 0], .ok ⟨4, 4⟩) := rfl
  have fits : (Visit.instruction .aconstNull).hand (⟨∅, code, 0, 0⟩ : Assembler)
      = .done ⟨∅, code.push 1, 0, 0⟩ :=
    if_pos (by rw [size]; decide)
  have full : (Visit.instruction (.iconst 2)).hand (⟨∅, code.push 1, 0, 0⟩ : Assembler)
      = .refused ⟨∅, code.push 1, 0, 0⟩ (.codeTooLong ((code.push 1).size + 1)) :=
    if_neg (by rw [Array.size_push, size]; decide)
  rw [Array.size_push, size] at full
  have delivered : Visit.deliver (⟨∅, code, 0, 0⟩ : Assembler) visits
      = (⟨∅, code.push 1, 0, 0⟩, .error (.codeTooLong 65536)) := by
    rw [callsAlike Assembler (fun _ _ => rfl), collected]
    calc Visit.deliver (⟨∅, code, 0, 0⟩ : Assembler)
          [.instruction .aconstNull, .instruction (.iconst 2), .instruction (.lconst 0)]
        = Visit.deliver ⟨∅, code.push 1, 0, 0⟩
            [.instruction (.iconst 2), .instruction (.lconst 0)] := by
          rw [Visit.deliver_of_accepted (congrArg Reply.outcome fits), fits]
          rfl
      _ = _ := by
          rw [Visit.deliver_of_refused (congrArg Reply.outcome full), full]
          rfl
  rw [anySink, delivered]

end Manipulation

/-! ## Failures -/

namespace Primitive

variable {primitive : Primitive} {error : EmitError}

/-- A valid primitive that cannot be applied loads a method type in a class that is too old. -/
theorem exists_methodType (valid : primitive.isValid = true)
    (failed : primitive.delivery target = .error error) :
    ∃ type, primitive = .methodType type ∧ target.version < .java7 ∧
      error = .unsupportedConstant ("MethodType " ++ type.descriptor) target.version := by
  cases primitive with
  | methodType type =>
      unfold delivery at failed
      simp only at failed
      split at failed
      · next old =>
          cases failed
          exact ⟨type, rfl, old, rfl⟩
      · cases failed
  | duplicate duplication =>
      have isValid : duplication.isValid = true := valid
      rw [delivery, if_pos isValid] at failed
      cases failed
  | illegal => cases valid
  | _ => cases failed

theorem not_deliverable_methodType (old : target.version < .java7) (type : MethodType) :
    ¬ ∃ delivery, (methodType type).delivery target = .ok delivery := by
  rintro ⟨delivery, delivered⟩
  rw [Primitive.delivery, if_pos old] at delivered
  cases delivered

end Primitive

/-- The sinks refuse nothing. -/
def Accepting (σ : Type) [MethodSink σ] : Prop :=
  ∀ (visit : Visit) (sink : σ), (visit.hand sink).outcome = .ok ()

theorem Accepting.exists_takes (h : Accepting σ) (sink : σ) (visits : List Visit) :
    ∃ final, Takes sink visits final := by
  induction visits generalizing sink with
  | nil => exact ⟨sink, .nil sink⟩
  | cons visit visits ih =>
      obtain ⟨final, rest⟩ := ih (visit.hand sink).sink
      exact ⟨final, .cons (h visit sink) rest⟩

namespace Manipulation

/-- The script of a valid manipulation. Either all its leaves can be applied, or the class is too
old for the first method type among them, and those before it can be applied. -/
theorem script_cases_of_valid {manipulation : Manipulation}
    (valid : manipulation.isValid = true) :
    (manipulation.Deliverable target ∧
      manipulation.script target = ⟨manipulation.visits target, .ok manipulation.leafEffect⟩) ∨
    ∃ before type after, manipulation.leaves = before ++ .methodType type :: after ∧
      target.version < .java7 ∧ (compound (before.map step)).Deliverable target ∧
      manipulation.script target = ⟨(compound (before.map step)).visits target,
        .error (.unsupportedConstant ("MethodType " ++ type.descriptor) target.version)⟩ := by
  rcases Primitive.script_cases target manipulation.leaves with
    ⟨deliverable, _⟩ | ⟨before, leaf, after, error, cut, deliverable, failed, whole⟩
  · exact .inl ⟨deliverable, script_of_deliverable deliverable⟩
  · have leafValid : leaf.isValid = true :=
      (isValid_iff_leaves manipulation).mp valid leaf (by rw [cut]; simp)
    obtain ⟨type, rfl, old, rfl⟩ := Primitive.exists_methodType leafValid failed
    refine .inr ⟨before, type, after, cut, old, ?_, ?_⟩
    · rw [Deliverable, leaves_compound_map_step]
      exact deliverable
    · rw [script, if_pos valid, Script.andThen_answer, whole, visits, leaves_compound_map_step]
      rfl

/-- **How applications fail.** An invalid manipulation fails as illegal and leaves any sink as it
was. A valid one fails as illegal only where the sink refuses something with that error. With a
sink that refuses nothing, it fails just if it holds a method type and the class is too old to
load one. It then names the first method type and its version, and has left the sink as the
parts before that method type leave it when they are applied alone. -/
theorem apply_by_validity (target : TargetClass) (manipulation : Manipulation) :
    (manipulation.isValid = false →
      ∀ (σ : Type) [MethodSink σ] (sink : σ) (log : Array LogRecord),
        Emission.outcome (apply target manipulation ⟨sink, log⟩)
          = (sink, .error .illegalManipulation)) ∧
    (manipulation.isValid = true →
      (∀ (σ : Type) [MethodSink σ] (sink final : σ) (log : Array LogRecord),
        Emission.outcome (apply target manipulation ⟨sink, log⟩)
            = (final, .error .illegalManipulation) →
          ∃ (taken : List Visit) (refused : Visit) (between : σ), Takes sink taken between ∧
            (refused.hand between).outcome = .error .illegalManipulation ∧
            (refused.hand between).sink = final) ∧
      (∀ (σ : Type) [MethodSink σ], Accepting σ → ∀ (sink : σ) (log : Array LogRecord),
        let outcome := Emission.outcome (apply target manipulation ⟨sink, log⟩)
        let outdated := target.version < .java7 ∧
          ∃ type, Primitive.methodType type ∈ manipulation.leaves
        ((∃ error, outcome.2 = .error error) ↔ outdated) ∧
        (outdated → ∃ before type after effect,
          manipulation.leaves = before ++ .methodType type :: after ∧
          (∀ other, Primitive.methodType other ∉ before) ∧
          Emission.outcome (apply target (compound (before.map step)) ⟨sink, log⟩)
            = (outcome.1, .ok effect) ∧
          outcome.2 = .error
            (.unsupportedConstant ("MethodType " ++ type.descriptor) target.version)))) := by
  refine ⟨fun invalid σ _ sink log => ?_, fun valid => ⟨fun σ _ sink final log failed => ?_,
    fun σ _ accepting sink log => ?_⟩⟩
  · have stops : manipulation.script target = .stop .illegalManipulation := by
      rw [script, invalid]
      rfl
    rw [performs_apply target manipulation ⟨sink, log⟩, stops]
    rfl
  · rw [performs_apply target manipulation ⟨sink, log⟩] at failed
    rcases Script.perform_eq_error failed with refused | ⟨_, ends⟩
    · obtain ⟨taken, visit, _, between, _, first, isError, isFinal⟩ := Visit.exists_refused refused
      exact ⟨taken, visit, between, first, isError, isFinal⟩
    · rcases script_cases_of_valid valid with
        ⟨_, whole⟩ | ⟨_, _, _, _, _, _, whole⟩
      all_goals
        rw [whole] at ends
        cases ends
  · obtain ⟨final, taken⟩ := accepting.exists_takes sink (manipulation.script target).visits
    have isOutcome : Emission.outcome (apply target manipulation ⟨sink, log⟩)
        = (final, (manipulation.script target).ending) :=
      (performs_apply target manipulation ⟨sink, log⟩).trans (Script.perform_of_takes taken)
    simp only [isOutcome]
    rcases script_cases_of_valid valid with
      ⟨deliverable, whole⟩ | ⟨before, type, after, cut, old, deliverable, whole⟩
    · have upToDate : ¬ (target.version < .java7 ∧
          ∃ type, Primitive.methodType type ∈ manipulation.leaves) := by
        rintro ⟨old, type, member⟩
        exact Primitive.not_deliverable_methodType old type (deliverable _ member)
      rw [whole]
      refine ⟨⟨?_, fun outdated => absurd outdated upToDate⟩,
        fun outdated => absurd outdated upToDate⟩
      rintro ⟨_, isError⟩
      cases isError
    · have holds : Primitive.methodType type ∈ manipulation.leaves := by
        rw [cut]
        simp
      rw [whole] at taken ⊢
      have handed : Takes sink ((compound (before.map step)).visits target) final := taken
      have applied := performs_apply target (compound (before.map step)) ⟨sink, log⟩
      rw [script_of_deliverable deliverable, Script.perform_of_takes handed] at applied
      refine ⟨⟨fun _ => ⟨old, type, holds⟩, fun _ => ⟨_, rfl⟩⟩, fun _ => ?_⟩
      refine ⟨before, type, after, _, cut, fun other member => ?_, applied, rfl⟩
      rw [Deliverable, leaves_compound_map_step] at deliverable
      exact Primitive.not_deliverable_methodType old other (deliverable _ member)

/-- An illegal part inside of another one keeps everything back. A method type there does not keep
back what comes before it. -/
theorem apply_by_validity_nested :
    let target : TargetClass := ⟨⟨"A", by decide⟩, ⟨50, 0⟩⟩
    let invalid := compound [step (.int 7), compound [step .illegal]]
    let outdated := compound [step (.int 7), compound [step (.methodType ⟨[], none⟩), step .null]]
    Emission.outcome (apply target invalid ⟨(#[] : Array Instruction), #[]⟩)
        = (#[], .error .illegalManipulation) ∧
      Emission.outcome (apply target outdated ⟨(#[] : Array Instruction), #[]⟩)
        = (#[.bipush 7], .error (.unsupportedConstant "MethodType ()V" ⟨50, 0⟩)) := by
  intro target invalid outdated
  refine ⟨(apply_by_validity target invalid).1 (by decide) _ #[] #[], ?_⟩
  have accepting : Accepting (Array Instruction) := by
    intro visit collected
    cases visit <;> rfl
  obtain ⟨before, type, after, effect, cut, noneBefore, alone, isError⟩ :=
    (((apply_by_validity target outdated).2 (by decide)).2 _ accepting #[] #[]).2
      ⟨by decide, ⟨[], none⟩, by decide⟩
  have leaves : [.int 7, .methodType ⟨[], none⟩, .null] = before ++ .methodType type :: after := cut
  match before with
  | [] => cases leaves
  | [first] =>
      cases leaves
      exact Prod.ext (congrArg Prod.fst alone).symm isError
  | first :: second :: rest =>
      obtain ⟨_, isMethodType, _⟩ := by simpa using leaves
      exact absurd (by rw [← isMethodType]; simp) (noneBefore ⟨[], none⟩)

/-! ## Nesting -/

/-- One can stand for the other. Both are valid or neither is, and in every class both go by one
script: they make the same visits to any sink, in the same order and up to the first one that it
refuses, and they give the same answer. -/
structure Interchangeable (first second : Manipulation) : Prop where
  isValid_eq : first.isValid = second.isValid
  exists_script : ∀ target : TargetClass, ∃ script : Script StackEffect,
    ∀ (σ : Type) [MethodSink σ],
      Performs (σ := σ) (apply target first) script ∧
        Performs (σ := σ) (apply target second) script

variable {first second : Manipulation}

theorem isValid_eq_of_leaves (same : first.leaves = second.leaves) :
    first.isValid = second.isValid := by
  rw [Bool.eq_iff_iff, isValid_iff_leaves, isValid_iff_leaves, same]

theorem script_eq_of_leaves (same : first.leaves = second.leaves) (target : TargetClass) :
    first.script target = second.script target := by
  rw [script, script, isValid_eq_of_leaves same, leafEffect, leafEffect, same]

/-- The leaves are all that matters. -/
theorem interchangeable_of_leaves (same : first.leaves = second.leaves) :
    Interchangeable first second where
  isValid_eq := isValid_eq_of_leaves same
  exists_script target := by
    refine ⟨first.script target, fun σ _ => ⟨performs_apply target first, ?_⟩⟩
    rw [script_eq_of_leaves same]
    exact performs_apply target second

/-- **Nesting does not matter.** A manipulation can stand for the compound of its leaves, and the
other way round. So can it for a compound of which it is the only part. A compound among the parts
of another one can be replaced by its own parts, of which there can be any number or none. -/
theorem nesting_irrelevant (manipulation : Manipulation) :
    manipulation.Interchangeable manipulation.flatten ∧
    manipulation.Interchangeable (compound [manipulation]) ∧
    ∀ before parts after : List Manipulation,
      (compound (before ++ compound parts :: after)).Interchangeable
        (compound (before ++ parts ++ after)) := by
  refine ⟨interchangeable_of_leaves manipulation.leaves_flatten.symm, ?_, ?_⟩
  · apply interchangeable_of_leaves
    rw [leaves_compound, List.flatMap_singleton]
  · intro before parts after
    apply interchangeable_of_leaves
    rw [leaves_compound, leaves_compound, List.flatMap_append, List.flatMap_cons, leaves_compound,
      List.append_assoc, List.flatMap_append, List.flatMap_append]

end Manipulation

end JvmCode
