import JvmCode.Proofs.Sink.Taking
import JvmCode.Sink.Tower
/-!
# Layers do not change what a sink does

Meters and tracers stacked on a sink have states of their own, which change before or after a visit
is handed on. None of it shows in the answers: a tower answers what its base answers, and leaves
the base as it would be left alone. And all meters in it have measured the same, since each of them
is handed the same visits and gets the same answers.

Both are said by comparing a tower with a single meter on the same base (`Tower.Mirrors`). One visit
keeps them alike (`Tower.hand_mirrors`, by induction on the layers), and so does a run of visits.
The base alone is a tower too, the one without layers.

Calls need some care. A layer hands a call on as an instruction, so the base must not make a
difference between the two, and a meter refuses a call whose descriptor cannot be read before the
base is asked.

## Main results

* `Tower.hand_mirrors`, `Tower.handAll_mirrors`: a tower and a meter on the same base stay alike.
* `Tower.mirrors_build`: how they start.
* `Tower.handAll_transparent`: towers on an assembler.
-/

namespace JvmCode

variable {σ : Type} [MethodSink σ]
  (alike : ∀ call (sink : σ),
    MethodSink.acceptCall call sink = MethodSink.accept (.invoke call) sink)

namespace Visit

theorem flow_forwarded (visit : Visit) : visit.forwarded.flow = visit.flow := by
  rw [flow, instruction?_forwarded, flow]

include alike in
/-- To a sink that takes calls as instructions it makes no difference that a visit is forwarded. -/
theorem hand_forwarded (visit : Visit) (sink : σ) : visit.forwarded.hand sink = visit.hand sink := by
  cases visit with
  | call delivered => exact (alike delivered sink).symm
  | _ => rfl

/-- The flow of a visit is known if it is no call, or one whose descriptor can be read. -/
theorem exists_flow_of_readable {visit : Visit}
    (readable : ∀ call, visit.instruction? = some (.invoke call) →
      ∃ type, MethodType.parse call.descriptor = .ok type) :
    ∃ flow, visit.flow = .ok flow := by
  cases known : visit.flow with
  | ok flow => exact ⟨flow, rfl⟩
  | error error =>
      cases isInstruction : visit.instruction? with
      | none =>
          rw [flow, isInstruction] at known
          cases known
      | some instruction =>
          rw [flow, isInstruction] at known
          obtain ⟨call, fault, rfl, unreadable, _⟩ := Instruction.flow_eq_error_iff.mp known
          obtain ⟨type, isType⟩ := readable call isInstruction
          rw [unreadable] at isType
          cases isType

end Visit

namespace Tower

/-- The tower and the meter have the same base, and the meters in the tower have measured what the
single one has. -/
structure Mirrors {layers : List Layer} (tower : Tower σ layers) (meter : StackMeter σ) :
    Prop where
  base_eq : base layers tower = meter.inner
  observed_eq : ∀ measured ∈ observed layers tower, measured = meter.observed

include alike in
/-- A visit whose flow is known gets the same answer from both, and keeps them alike. -/
theorem hand_mirrors {visit : Visit} {flow : SlotFlow} (known : visit.flow = .ok flow)
    {layers : List Layer} {tower : Tower σ layers} {meter : StackMeter σ}
    (sound : meter.observed.Sound) (mirrors : tower.Mirrors meter) :
    (visit.hand tower).outcome = (visit.hand meter).outcome ∧
      Mirrors (visit.hand tower).sink (visit.hand meter).sink := by
  induction layers generalizing visit with
  | nil =>
      obtain ⟨sameOutcome, sameInner, _⟩ := StackMeter.hand_of_flow known meter
      have isBase : tower = meter.inner := mirrors.base_eq
      have same : visit.forwarded.hand meter.inner = visit.hand (σ := σ) tower := by
        rw [isBase, Visit.hand_forwarded alike]
      rw [same] at sameOutcome sameInner
      refine ⟨sameOutcome.symm, sameInner.symm, ?_⟩
      intro measured none
      exact absurd none List.not_mem_nil
  | cons layer layers ih =>
      have sameMeter : visit.forwarded.hand meter = visit.hand meter :=
        Visit.hand_forwarded (fun _ _ => rfl) visit meter
      have forwardedFlow : visit.forwarded.flow = .ok flow := visit.flow_forwarded.trans known
      cases layer with
      | meter =>
          let outer : StackMeter (Tower σ layers) := tower
          have sameObserved : outer.observed = meter.observed :=
            mirrors.observed_eq _ List.mem_cons_self
          have inner : Mirrors outer.inner meter :=
            ⟨mirrors.base_eq, fun _ member => mirrors.observed_eq _ (List.mem_cons_of_mem _ member)⟩
          obtain ⟨innerOutcome, innerMirrors⟩ := ih forwardedFlow inner
          rw [sameMeter] at innerOutcome innerMirrors
          obtain ⟨outerOutcome, outerInner, _⟩ := StackMeter.hand_of_flow known outer
          have sameOutcome : (visit.hand outer).outcome = (visit.hand meter).outcome :=
            outerOutcome.trans innerOutcome
          rw [← outerInner] at innerMirrors
          have measured : (visit.hand outer).sink.observed = (visit.hand meter).sink.observed := by
            rw [StackMeter.observed_hand known (sameObserved ▸ sound),
              StackMeter.observed_hand known sound, sameOutcome, sameObserved]
          refine ⟨sameOutcome, innerMirrors.base_eq, ?_⟩
          exact List.forall_mem_cons.mpr ⟨measured, innerMirrors.observed_eq⟩
      | tracer =>
          let outer : Tracer (Tower σ layers) := tower
          have inner : Mirrors outer.inner meter := ⟨mirrors.base_eq, mirrors.observed_eq⟩
          obtain ⟨innerOutcome, innerMirrors⟩ := ih forwardedFlow inner
          rw [sameMeter] at innerOutcome innerMirrors
          obtain ⟨outerOutcome, outerInner⟩ := Tracer.hand_forwarded visit outer
          rw [← outerInner] at innerMirrors
          exact ⟨outerOutcome.trans innerOutcome, innerMirrors.base_eq, innerMirrors.observed_eq⟩

include alike in
/-- A run of visits whose flows are known gets the same answers from both, and keeps them
alike. -/
theorem handAll_mirrors {visits : List Visit}
    (known : ∀ visit ∈ visits, ∃ flow, visit.flow = .ok flow) {layers : List Layer}
    {tower : Tower σ layers} {meter : StackMeter σ} (sound : meter.observed.Sound)
    (mirrors : tower.Mirrors meter) :
    (Visit.handAll tower visits).2 = (Visit.handAll meter visits).2 ∧
      Mirrors (Visit.handAll tower visits).1 (Visit.handAll meter visits).1 := by
  induction visits generalizing tower meter with
  | nil => exact ⟨rfl, mirrors⟩
  | cons visit visits ih =>
      obtain ⟨⟨flow, isFlow⟩, others⟩ := List.forall_mem_cons.mp known
      obtain ⟨sameOutcome, next⟩ := hand_mirrors alike isFlow sound mirrors
      obtain ⟨sameOutcomes, last⟩ := ih others (StackMeter.sound_hand visit sound) next
      rw [Visit.handAll_cons, Visit.handAll_cons, sameOutcome, sameOutcomes]
      exact ⟨rfl, last⟩

omit [MethodSink σ] in
/-- At its start no meter in a tower has measured anything. -/
theorem mirrors_build (inner : σ) (layers : List (Layer × String)) :
    Mirrors (build inner layers) (StackMeter.start inner) where
  base_eq := base_build inner layers
  observed_eq := by
    induction layers with
    | nil => exact fun _ none => absurd none List.not_mem_nil
    | cons layer layers ih =>
        obtain ⟨kind, label⟩ := layer
        cases kind with
        | meter => exact List.forall_mem_cons.mpr ⟨rfl, ih⟩
        | tracer => exact ih

/-- **Layers are transparent.** Put meters and tracers on an assembler, in any order and to any
height, and hand over visits whose calls have descriptors that can be read. Every visit is answered
as the assembler alone would answer it, errors included, and the assembler at the bottom ends with
the same code, pool and limits as it would alone. All meters have measured the same: what a single
one on the assembler does. -/
theorem handAll_transparent (assembler : Assembler) (layers : List (Layer × String))
    (visits : List Visit)
    (readable : ∀ visit ∈ visits, ∀ call, visit.instruction? = some (.invoke call) →
      ∃ type, MethodType.parse call.descriptor = .ok type) :
    let run := Visit.handAll (build assembler layers) visits
    let alone := Visit.handAll assembler visits
    let metered := Visit.handAll (StackMeter.start assembler) visits
    run.2 = alone.2 ∧ base (layers.map Prod.fst) run.1 = alone.1 ∧
      ∀ measured ∈ observed (layers.map Prod.fst) run.1, measured = metered.1.observed := by
  intro run alone metered
  have alike : ∀ call (sink : Assembler),
      MethodSink.acceptCall call sink = MethodSink.accept (.invoke call) sink := fun _ _ => rfl
  have known : ∀ visit ∈ visits, ∃ flow, visit.flow = .ok flow :=
    fun visit member => Visit.exists_flow_of_readable (readable visit member)
  have sound : (StackMeter.start assembler).observed.Sound := StackEffect.sound_none
  obtain ⟨outcomes, mirrors⟩ :=
    handAll_mirrors alike known sound (mirrors_build assembler layers)
  -- Without layers the tower is the assembler.
  obtain ⟨aloneOutcomes, aloneMirrors⟩ :=
    handAll_mirrors alike known sound (mirrors_build assembler [])
  exact ⟨outcomes.trans aloneOutcomes.symm, mirrors.base_eq.trans aloneMirrors.base_eq.symm,
    mirrors.observed_eq⟩

/-- There is room for four more bytes. The call takes three of them, so the constant is refused, by
the tower as by the assembler alone. -/
theorem handAll_transparent_full :
    let call : MethodCall := ⟨.static, ⟨"A", by decide⟩, ⟨"f", by decide⟩, "()J", false⟩
    let visits : List Visit := [.call call, .instruction (.sipush 300), .limits 4 0]
    let layers : List (Layer × String) :=
      [(.tracer, "outer"), (.meter, ""), (.tracer, "inner"), (.meter, "")]
    let assembler : Assembler := ⟨∅, Array.replicate 65531 0, 0, 0⟩
    let run := Visit.handAll (build assembler layers) visits
    run.2 = [.ok (), .error (.codeTooLong 65537), .ok ()] ∧
      (base (layers.map Prod.fst) run.1).maxStack = 4 := by
  intro call visits layers
  suffices ∀ code : Array UInt8, code.size = 65531 →
      let run := Visit.handAll (build (⟨∅, code, 0, 0⟩ : Assembler) layers) visits
      run.2 = [.ok (), .error (.codeTooLong 65537), .ok ()] ∧
        (base (layers.map Prod.fst) run.1).maxStack = 4 from
    this _ Array.size_replicate
  intro code size run
  have readable : ∀ visit ∈ visits, ∀ other, visit.instruction? = some (.invoke other) →
      ∃ type, MethodType.parse other.descriptor = .ok type := by
    intro visit member other isCall
    simp only [visits, List.mem_cons, List.not_mem_nil, or_false] at member
    rcases member with rfl | rfl | rfl
    · cases isCall
      exact ⟨_, MethodType.parse_descriptor ⟨[], some (.base .long)⟩⟩
    · cases isCall
    · cases isCall
  have encodes : (match (Instruction.invoke call).encode ∅ with
      | .ok bytes _ => bytes = [0xB8, 0, 6]
      | .error _ _ => False) := by cbv
  cases encoded : (Instruction.invoke call).encode ∅ with
  | error error pool =>
      rw [encoded] at encodes
      cases encodes
  | ok bytes pool =>
      rw [encoded] at encodes
      obtain rfl : bytes = [0xB8, 0, 6] := encodes
      let start : Assembler := ⟨∅, code, 0, 0⟩
      let filled : Assembler := ⟨pool, code ++ [(0xB8 : UInt8), 0, 6], 0, 0⟩
      have called : (Visit.call call).hand start = .done filled := by
        show Assembler.accept (.invoke call) start = _
        rw [Assembler.accept_of_encode_ok encoded]
        exact if_pos (by rw [size]; decide)
      have sizeNow : filled.code.size = 65534 := by simp [filled, size]
      have full : (Visit.instruction (.sipush 300)).hand filled
          = .refused filled (.codeTooLong 65537) := by
        have encodedPush : (Instruction.sipush 300).encode pool = .ok [0x11, 1, 44] pool := rfl
        show Assembler.accept (.sipush 300) filled = _
        rw [Assembler.accept_of_encode_ok encodedPush, sizeNow]
        exact if_neg (by decide)
      have alone : Visit.handAll start visits
          = ({ filled with maxStack := 4 }, [.ok (), .error (.codeTooLong 65537), .ok ()]) := by
        rw [Visit.handAll_cons, called, Visit.handAll_cons, Reply.done, full]
        rfl
      obtain ⟨outcomes, isBase, _⟩ := handAll_transparent start layers visits readable
      rw [alone] at outcomes isBase
      exact ⟨outcomes, congrArg Assembler.maxStack isBase⟩

end Tower

end JvmCode
