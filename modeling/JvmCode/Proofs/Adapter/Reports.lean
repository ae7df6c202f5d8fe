import JvmCode.CommandLine
import JvmCode.Proofs.Adapter.Body
import JvmCode.Proofs.Manipulation.Agreement
/-!
# Reports

The class that adapters are generated for goes into the log, through the label of the tracer, and
nowhere else: the body of an adapter hands over the same in every class. So the emissions of two
classes agree as long as the sinks behind the tracers do, and what is shown of an adapter depends
on its descriptor only. Every adapter gets sinks of its own, so it does not depend on those that
were shown before it either.

## Main results

* `script_body_eq`, `agree_emit`, `generate_eq`: an adapter in two classes.
* `Report.extend_cases`: a report goes on up to the first descriptor that fails.
* `CommandLine.Request.run_one_by_one`: what a whole run shows, and how it ends.
-/

namespace JvmCode

namespace Adapter

variable {descriptor : String} {handleType : MethodType}

/-! ## One adapter in two classes -/

/-- The sinks of two adapters have assembled the same code and measured the same. -/
def Alike (a b : Sink) : Prop := a.inner.inner = b.inner.inner ∧ a.observed = b.observed

theorem isBisimulation_alike : Visit.IsBisimulation Alike := Visit.IsBisimulation.eq.tracer.meter

/-- The body of an adapter does the same in every class, also if its arguments cannot all be
loaded. -/
theorem script_body_eq (target other : TargetClass) (handleType : MethodType) :
    (body handleType).script target = (body handleType).script other := by
  cases valid : (body handleType).isValid with
  | true =>
      rw [Manipulation.script_of_deliverable (deliverable_body target valid),
        Manipulation.script_of_deliverable (deliverable_body other valid),
        visits_body target valid, visits_body other valid]
  | false =>
      rw [Manipulation.script, Manipulation.script, valid]
      rfl

/-- What comes after the body reads no more of the sinks than their measurements. -/
theorem agree_emit (target other : TargetClass) (descriptor : String) (handleType : MethodType) :
    Emission.Agree Alike (emit target descriptor handleType)
      (emit other descriptor handleType) := by
  have applied : Emission.Agree Alike ((body handleType).apply target)
      ((body handleType).apply other) := by
    refine .of_performs isBisimulation_alike (Manipulation.performs_apply target _) ?_
    rw [script_body_eq target other]
    exact Manipulation.performs_apply other _
  refine applied.bind fun declared => .observe fun a b alike => ?_
  have sameObserved : a.sink.observed = b.sink.observed := alike.2
  simp only
  rw [sameObserved]
  split
  · exact Emission.Agree.throw _ _ _
  · split
    · exact Emission.Agree.throw _ _ _
    · refine (Emission.Agree.hand isBisimulation_alike _).bind fun _ => ?_
      refine (Emission.Agree.hand isBisimulation_alike _).bind fun _ => ?_
      exact .pure _

/-- The sinks that an adapter is emitted into. -/
def fresh (target : TargetClass) (handleType : MethodType) : Emitting Sink :=
  ⟨.start (.start (label target handleType) .empty), #[]⟩

/-- The adapter that an emission with this answer has left in its sinks. -/
def collect (handleType : MethodType) (sink : Sink) :
    Except EmitError (StackEffect × StackEffect) → Except EmitError Adapter
  | .ok (declared, observed) =>
    let assembler := sink.inner.inner
    .ok ⟨handleType, declared, observed, assembler.method, assembler.pool⟩
  | .error error => .error error

theorem collect_eq {a b : Sink} (alike : Alike a b)
    (answer : Except EmitError (StackEffect × StackEffect)) :
    collect handleType a answer = collect handleType b answer := by
  cases answer with
  | ok effects => simp only [collect, alike.1]
  | error error => rfl

theorem generate_eq_collect (target : TargetClass)
    (parsed : MethodType.ofDescriptor descriptor = .ok handleType) :
    let left := Emission.outcome (emit target descriptor handleType (fresh target handleType))
    (generate target descriptor).1 = collect handleType left.1 left.2 := by
  intro left
  rw [generate, parsed]
  simp only [left, fresh]
  cases emit target descriptor handleType _ <;> rfl

/-- The class of an adapter does not show, neither in the adapter nor in what went wrong. -/
theorem generate_eq (target other : TargetClass) (descriptor : String) :
    (generate target descriptor).1 = (generate other descriptor).1 := by
  cases parsed : MethodType.ofDescriptor descriptor with
  | error error => rw [generate, generate, parsed]
  | ok handleType =>
      obtain ⟨sameAnswer, alike⟩ := agree_emit target other descriptor handleType
        (fresh target handleType) (fresh other handleType) ⟨rfl, rfl⟩
      rw [generate_eq_collect target parsed, generate_eq_collect other parsed, sameAnswer]
      exact collect_eq alike _

/-! ## Several adapters -/

/-- What is shown for one descriptor. -/
def shown (target : TargetClass) (descriptor : String) : List String :=
  match (generate target descriptor).1 with
  | .ok adapter => listing descriptor adapter
  | .error _ => []

/-- How it ends for one descriptor. -/
def ending (target : TargetClass) (descriptor : String) : Except EmitError Unit :=
  (generate target descriptor).1.map fun _ => ()

variable {target : TargetClass}

theorem shown_eq (target other : TargetClass) (descriptor : String) :
    shown target descriptor = shown other descriptor := by
  rw [shown, shown, generate_eq target other]

theorem ending_eq (target other : TargetClass) (descriptor : String) :
    ending target descriptor = ending other descriptor := by
  rw [ending, ending, generate_eq target other]

/-- Nothing is shown for a descriptor that fails. -/
theorem shown_of_error {error : EmitError} (failed : ending target descriptor = .error error) :
    shown target descriptor = [] := by
  rw [ending] at failed
  rw [shown]
  cases made : (generate target descriptor).1 with
  | ok adapter =>
      rw [made] at failed
      cases failed
  | error _ => rfl

namespace Report

theorem extend_of_ok (report : Report) (ends : ending target descriptor = .ok ())
    (descriptors : List String) :
    ∃ log, report.extend target (descriptor :: descriptors)
      = extend target ⟨report.lines.append (shown target descriptor).toArray, log, report.outcome⟩
          descriptors := by
  rw [extend, shown]
  rw [ending] at ends
  rcases made : generate target descriptor with ⟨_ | adapter, log⟩ <;> rw [made] at ends
  · cases ends
  · exact ⟨_, rfl⟩

theorem extend_of_error (report : Report) {error : EmitError}
    (failed : ending target descriptor = .error error) (descriptors : List String) :
    ∃ log, report.extend target (descriptor :: descriptors)
      = ⟨report.lines, log, .error error⟩ := by
  rw [extend]
  rw [ending] at failed
  rcases made : generate target descriptor with ⟨_ | adapter, log⟩ <;> rw [made] at failed
  · cases failed
    exact ⟨_, rfl⟩
  · cases failed

/-- The same descriptors continue reports with the same lines in the same way. -/
theorem extend_eq (target other : TargetClass) (descriptors : List String) {first second : Report}
    (sameLines : first.lines = second.lines) (sameOutcome : first.outcome = second.outcome) :
    (first.extend target descriptors).lines = (second.extend other descriptors).lines ∧
      (first.extend target descriptors).outcome = (second.extend other descriptors).outcome := by
  induction descriptors generalizing first second with
  | nil => exact ⟨sameLines, sameOutcome⟩
  | cons descriptor descriptors ih =>
      have sameEnding := ending_eq target other descriptor
      cases ends : ending other descriptor with
      | ok done =>
          obtain ⟨_, isFirst⟩ := extend_of_ok first (sameEnding.trans ends) descriptors
          obtain ⟨_, isSecond⟩ := extend_of_ok second ends descriptors
          rw [isFirst, isSecond]
          exact ih (by rw [sameLines, shown_eq target other]) sameOutcome
      | error error =>
          obtain ⟨_, isFirst⟩ := extend_of_error first (sameEnding.trans ends) descriptors
          obtain ⟨_, isSecond⟩ := extend_of_error second ends descriptors
          rw [isFirst, isSecond]
          exact ⟨sameLines, rfl⟩

/-- A report shows all descriptors, or those before the first that fails. -/
theorem extend_cases (target : TargetClass) (report : Report) (descriptors : List String) :
    let whole := report.extend target descriptors
    ((∀ descriptor ∈ descriptors, ending target descriptor = .ok ()) ∧
      whole.lines.toList = report.lines.toList ++ descriptors.flatMap (shown target) ∧
      whole.outcome = report.outcome) ∨
    ∃ before failing after error, descriptors = before ++ failing :: after ∧
      (∀ descriptor ∈ before, ending target descriptor = .ok ()) ∧
      ending target failing = .error error ∧
      whole.lines.toList = report.lines.toList ++ before.flatMap (shown target) ∧
      whole.outcome = .error error := by
  induction descriptors generalizing report with
  | nil => exact .inl ⟨fun _ none => absurd none List.not_mem_nil, by simp [extend], rfl⟩
  | cons descriptor descriptors ih =>
      cases ends : ending target descriptor with
      | ok done =>
          obtain ⟨log, extended⟩ := extend_of_ok report ends descriptors
          rw [extended]
          rcases ih ⟨report.lines.append (shown target descriptor).toArray, log, report.outcome⟩
            with ⟨all, lines, outcome⟩ |
              ⟨before, failing, after, error, rfl, all, failed, lines, outcome⟩
          · refine .inl ⟨List.forall_mem_cons.mpr ⟨ends, all⟩, ?_, outcome⟩
            rw [lines, List.flatMap_cons, ← List.append_assoc]
            simp
          · refine .inr ⟨descriptor :: before, failing, after, error, rfl,
              List.forall_mem_cons.mpr ⟨ends, all⟩, failed, ?_, outcome⟩
            rw [lines, List.flatMap_cons, ← List.append_assoc]
            simp
      | error error =>
          obtain ⟨log, extended⟩ := extend_of_error report ends descriptors
          rw [extended]
          refine .inr ⟨[], descriptor, descriptors, error, rfl, ?_, ends, by simp, rfl⟩
          exact fun _ none => absurd none List.not_mem_nil

end Report

theorem report_singleton (target : TargetClass) (descriptor : String) :
    (report target [descriptor]).lines.toList = shown target descriptor ∧
      (report target [descriptor]).outcome = ending target descriptor := by
  let start : Report := ⟨#[], #[.generating target], .ok ()⟩
  rw [report]
  cases ends : ending target descriptor with
  | ok done =>
      obtain ⟨_, extended⟩ := Report.extend_of_ok start ends []
      rw [extended]
      exact ⟨by simp [Report.extend, start], rfl⟩
  | error error =>
      obtain ⟨_, extended⟩ := Report.extend_of_error start ends []
      rw [extended, shown_of_error ends]
      exact ⟨rfl, rfl⟩

end Adapter

namespace CommandLine

theorem Request.run_of_name (descriptors : List String) (version : UInt16) (owner : BinaryName) :
    Request.run ⟨descriptors, version, owner.text⟩
      = Adapter.report ⟨owner, ⟨version, 0⟩⟩ descriptors := by
  rw [Request.run, BinaryName.ofString_eq_ok_iff.mpr rfl]

/-- **Runs show adapters one by one.** Whatever the descriptors, two runs for classes with valid
names show the same and end in the same way, whatever these names and the class versions are. And
a run shows what it would show for each descriptor alone, in order. It ends well if it would for
all of them. Otherwise there is a first one with which a run alone would fail, showing nothing:
then only what comes before it is shown, and its error is the one that the run ends with. -/
theorem Request.run_one_by_one (descriptors : List String) (owner owner' : BinaryName)
    (version version' : UInt16) :
    let run := Request.run ⟨descriptors, version, owner.text⟩
    let other := Request.run ⟨descriptors, version', owner'.text⟩
    let alone := fun descriptor : String => Request.run ⟨[descriptor], version', owner'.text⟩
    run.lines = other.lines ∧ run.outcome = other.outcome ∧
    ((∀ descriptor ∈ descriptors, (alone descriptor).outcome = .ok ()) ∧
        run.lines.toList = descriptors.flatMap (fun descriptor => (alone descriptor).lines.toList) ∧
        run.outcome = .ok () ∨
      ∃ before failing after error, descriptors = before ++ failing :: after ∧
        (∀ descriptor ∈ before, (alone descriptor).outcome = .ok ()) ∧
        (alone failing).outcome = .error error ∧ (alone failing).lines = #[] ∧
        run.lines.toList = before.flatMap (fun descriptor => (alone descriptor).lines.toList) ∧
        run.outcome = .error error) := by
  intro run other alone
  let target : TargetClass := ⟨owner', ⟨version', 0⟩⟩
  have isRun : run = Adapter.report ⟨owner, ⟨version, 0⟩⟩ descriptors := run_of_name _ _ _
  have isOther : other = Adapter.report target descriptors := run_of_name _ _ _
  have isAlone : ∀ descriptor, alone descriptor = Adapter.report target [descriptor] :=
    fun descriptor => run_of_name [descriptor] version' owner'
  have shows : ∀ descriptor, (alone descriptor).lines.toList = Adapter.shown target descriptor := by
    intro descriptor
    rw [isAlone, (Adapter.report_singleton target descriptor).1]
  have ends : ∀ descriptor, (alone descriptor).outcome = Adapter.ending target descriptor := by
    intro descriptor
    rw [isAlone, (Adapter.report_singleton target descriptor).2]
  have same : run.lines = other.lines ∧ run.outcome = other.outcome := by
    rw [isRun, isOther]
    exact Adapter.Report.extend_eq _ target descriptors rfl rfl
  refine ⟨same.1, same.2, ?_⟩
  rw [same.1, same.2, isOther]
  simp only [shows, ends]
  rcases Adapter.Report.extend_cases target ⟨#[], #[.generating target], .ok ()⟩ descriptors with
    whole | ⟨before, failing, after, error, cut, all, failed, lines, outcome⟩
  · exact .inl whole
  · have nothing : (alone failing).lines = #[] := by
      rw [← Array.toList_eq_nil_iff, shows, Adapter.shown_of_error failed]
    exact .inr ⟨before, failing, after, error, cut, all, failed, nothing, lines, outcome⟩

end CommandLine

end JvmCode
