import JvmCode.Proofs.Instrument.Recording
/-!
# Instrumentations in turn

An instrumentation can be put in front of a class sink that another instrumentation already stands
in front of. That comes to the same as one instrumentation with the rules of both.

What comes to the same is more than the answers. The class sink at the end is told the same, and the
same matchers and wrappers are called with the same arguments and answer the same, all in the same
order. This can be seen in recorded runs. Rules are known by their places there, and where two
instrumentations stand in turn, the places of the outer one go on after those of the inner one.

## Main results

* `Instrumentation.erases_wrap`, `ClassSink.Erases.mapM_answer`: recording changes no answer.
* `Instrumentation.rules_recorded`: rules at places that go on.
* `Instrumentation.wrap_in_turn`: two instrumentations in turn and one with the rules of both.
-/

namespace JvmCode

variable {m : Type → Type} {κ V : Type} [Monad m]

/-! ## Visits of a class -/

/-- Something that a class sink is told. -/
inductive ClassVisit
  | method (header : MethodHeader)
  | finish

/-- What a class sink answers. -/
inductive ClassAnswer (V : Type)
  | method (provided : Option V)
  | finish (outcome : Except EmitError Unit)

namespace ClassSink

/-- The answer to one visit. -/
def answer (sink : ClassSink m V) : ClassVisit → m (ClassAnswer V)
  | .method header => return .method (← sink.beginMethod header)
  | .finish => return .finish (← sink.finish)

/-- Without its record, the first class sink does what the second does. -/
structure Erases (recording : ClassSink (Recording m κ) V) (sink : ClassSink m V) : Prop where
  beginMethod : ∀ header,
    (recording.beginMethod header).Records (sink.beginMethod header) fun _ _ => True
  finish : recording.finish.Records sink.finish fun _ _ => True

variable [LawfulMonad m]

theorem erases_recorded {α β : Type} (sink : ClassSink m V) :
    (sink.recorded : ClassSink (Recording m (AnsweredCall α β V)) V).Erases sink where
  beginMethod _ := (Recording.Records.calling _ _).mono fun _ _ _ => trivial
  finish := (Recording.Records.calling _ _).mono fun _ _ _ => trivial

theorem Erases.answer {recording : ClassSink (Recording m κ) V} {sink : ClassSink m V}
    (h : recording.Erases sink) (visit : ClassVisit) :
    (recording.answer visit).Records (sink.answer visit) fun _ _ => True := by
  cases visit with
  | method header =>
      exact (h.beginMethod header).bind fun _ _ _ => .pure trivial
  | finish =>
      exact h.finish.bind fun _ _ _ => .pure trivial

/-- A whole run of visits without its record. -/
theorem Erases.mapM_answer {recording : ClassSink (Recording m κ) V} {sink : ClassSink m V}
    (h : recording.Erases sink) (visits : List ClassVisit) :
    Recording.Records (visits.mapM recording.answer) (visits.mapM sink.answer)
      fun _ _ => True := by
  induction visits with
  | nil => exact .pure trivial
  | cons visit visits ih =>
      rw [List.mapM_cons, List.mapM_cons]
      exact (h.answer visit).bind fun _ _ _ => ih.bind fun _ _ _ => .pure trivial

end ClassSink

namespace Instrumentation

variable [LawfulMonad m] [Logs m]

/-- An instrumentation in front of a class sink does without a record what it does unrecorded. -/
theorem erases_wrap (instrumentation : Instrumentation m V) (first : Nat) (type : DeclaredType)
    {recording : ClassSink (Recording m (AnsweredCall Nat Nat V)) V} {inner : ClassSink m V}
    (h : recording.Erases inner) :
    ((instrumentation.recorded first).wrap type recording).Erases
      (instrumentation.wrap type inner) where
  beginMethod header := by
    rw [beginMethod_wrap, beginMethod_wrap]
    refine (h.beginMethod header).bind fun provided _ _ => ?_
    exact (records_answer (fun _ => instrumentation.records_rules first) provided).mono
      fun _ _ _ => trivial
  finish := h.finish

/-! ## Two in turn -/

omit [LawfulMonad m] in
/-- Only the rules matter for what an instrumentation does to a class sink. -/
theorem wrap_eq_of_rules {first second : Instrumentation m V} (same : first.rules = second.rules)
    (type : DeclaredType) (inner : ClassSink m V) :
    first.wrap type inner = second.wrap type inner := by
  unfold wrap instrument
  rw [same]

/-- One with the rules of both, whatever its flags. -/
theorem wrap_wrap_of_rules {a b c : Instrumentation m V} (rules : c.rules = a.rules ++ b.rules)
    (type : DeclaredType) (inner : ClassSink m V) :
    b.wrap type (a.wrap type inner) = c.wrap type inner :=
  (wrap_wrap a b type inner).trans (wrap_eq_of_rules rules.symm type inner)

omit [LawfulMonad m] [Logs m] in
/-- Rules that are put one after the other are recorded at places that go on. -/
theorem rules_recorded {a b c : Instrumentation m V} (rules : c.rules = a.rules ++ b.rules)
    (first : Nat) :
    (c.recorded first).rules
      = (a.recorded first).rules ++ (b.recorded (first + a.rules.length)).rules := by
  show (c.rules.zipIdx first).map _ = _
  rw [rules, List.zipIdx_append, List.map_append]
  rfl

/-- **Two instrumentations in turn are one with the rules of both.** Take any class sink and any
visits of it. The class sink is told the same, in the same order, whether one instrumentation stands
in front of it and a second one in front of that, or one with the rules of the first and then those
of the second. The same matchers and wrappers are called with the same arguments and answer the same,
in the same order and between the same of these calls, and all visits get the same answers, with the
same effects. The recorded runs, in which that can be seen, are the runs themselves but for the record. -/
theorem wrap_in_turn (a b c : Instrumentation m V) (rules : c.rules = a.rules ++ b.rules)
    (type : DeclaredType) (inner : ClassSink m V) (visits : List ClassVisit) :
    let inTurn := (b.recorded a.rules.length).wrap type ((a.recorded 0).wrap type inner.recorded)
    let atOnce := (c.recorded 0).wrap type inner.recorded
    (∀ calls, (visits.mapM inTurn.answer).run calls = (visits.mapM atOnce.answer).run calls) ∧
    visits.mapM (b.wrap type (a.wrap type inner)).answer
      = visits.mapM (c.wrap type inner).answer ∧
    (∀ calls, Prod.fst <$> (visits.mapM inTurn.answer).run calls
      = visits.mapM (b.wrap type (a.wrap type inner)).answer) ∧
    (∀ calls, Prod.fst <$> (visits.mapM atOnce.answer).run calls
      = visits.mapM (c.wrap type inner).answer) := by
  intro inTurn atOnce
  have places : (c.recorded 0).rules
      = (a.recorded 0).rules ++ (b.recorded a.rules.length).rules := by
    rw [rules_recorded rules, Nat.zero_add]
  have sameRecorded : inTurn = atOnce := wrap_wrap_of_rules places type inner.recorded
  have same : b.wrap type (a.wrap type inner) = c.wrap type inner :=
    wrap_wrap_of_rules rules type inner
  have erasesOnce : atOnce.Erases (c.wrap type inner) :=
    c.erases_wrap 0 type inner.erases_recorded
  have erasesTurn : inTurn.Erases (b.wrap type (a.wrap type inner)) :=
    b.erases_wrap a.rules.length type (a.erases_wrap 0 type inner.erases_recorded)
  refine ⟨?_, by rw [same], (erasesTurn.mapM_answer visits).erases,
    (erasesOnce.mapM_answer visits).erases⟩
  intro calls
  rw [sameRecorded]

/-- Two rules and one more, in front of a class sink that provides a sink for every other method. -/
theorem wrap_in_turn_declining :
    let _ : Logs (StateM Nat) := ⟨fun _ => pure ()⟩
    let tag : Nat → SinkWrapper (StateM Nat) (List Nat) := fun n _ _ sink => pure (n :: sink)
    let a : Instrumentation (StateM Nat) (List Nat) :=
      ⟨[⟨.named "f", tag 1⟩, ⟨.none, tag 2⟩], .empty, .empty⟩
    let b : Instrumentation (StateM Nat) (List Nat) := ⟨[⟨.any, tag 3⟩], .empty, .empty⟩
    let inner : ClassSink (StateM Nat) (List Nat) :=
      ⟨fun _ begun => (if begun % 2 = 0 then some [0] else none, begun + 1), pure (.ok ())⟩
    let method : DeclaredMethod := ⟨⟨"f", by decide⟩, ⟨[], none⟩, .empty⟩
    let type : DeclaredType := ⟨⟨"a/B", by decide⟩, [method]⟩
    let f : MethodHeader := ⟨.empty, "f", "()V", none, []⟩
    let g : MethodHeader := ⟨.empty, "g", "()V", none, []⟩
    let inTurn := (b.recorded a.rules.length).wrap type ((a.recorded 0).wrap type inner.recorded)
    ([.method f, .method f, .method g, .finish].mapM inTurn.answer).run [] 0 =
      (([.method (some [3, 1, 0]), .method none, .method (some [0]), .finish (.ok ())],
        [.begin f (some [0]), .consult 0 method true, .wrap 0 type method [0] [1, 0],
          .consult 1 method false, .consult 2 method true, .wrap 2 type method [1, 0] [3, 1, 0],
          .begin f none, .begin g (some [0]), .finish (.ok ())]), 3) := by
  intro silent tag a b inner method type f g inTurn
  let c : Instrumentation (StateM Nat) (List Nat) := ⟨a.rules ++ b.rules, .empty, .empty⟩
  have same := (wrap_in_turn a b c rfl type inner [.method f, .method f, .method g, .finish]).1 []
  rw [same]
  with_unfolding_all rfl

end Instrumentation

end JvmCode
