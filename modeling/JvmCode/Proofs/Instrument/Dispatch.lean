import JvmCode.Proofs.Descriptor.RoundTrip
import JvmCode.Proofs.Instrument.Recording
import Mathlib.Data.List.Basic
/-!
# Which declared methods are handed over

An instrumentation looks a visited method up by its key, the name and the descriptor written
one after the other. What its matchers and wrappers get to see is told by the recorded calls of a
visit (`handovers`).

A name may hold parentheses and letters, and so may the class names in a descriptor, so one
key can be read in two ways as a name and a descriptor. Visits are dispatched to the methods
they are for exactly for the types without such keys.

## Main results

* `Instrumentation.handovers_of_find?`: what is handed over in one visit.
* `dispatches_iff`: for which types this is always the visited method.
* `readsOneWay_of_count`: one parenthesis that opens is enough.
-/

namespace JvmCode

/-! ## What is handed over -/

/-- A declared method in the hands of a matcher or of a wrapper. -/
inductive Handover
  | toMatcher (method : DeclaredMethod)
  | toWrapper (method : DeclaredMethod)

namespace Handover

/-- The method that is handed over. -/
def method : Handover → DeclaredMethod
  | toMatcher method | toWrapper method => method

/-- A matcher is consulted. -/
def isConsultation : Handover → Bool
  | toMatcher _ => true
  | toWrapper _ => false

end Handover

/-- What is handed over in a call. A class sink is handed no declared methods. -/
def AnsweredCall.handover? {α β V : Type} : AnsweredCall α β V → Option Handover
  | begin _ _ | finish _ => none
  | consult _ method _ => some (.toMatcher method)
  | wrap _ _ method _ _ => some (.toWrapper method)

/-- Rules hand over the method they are gone through for, and each matcher is handed it once. -/
theorem PlacesApply.handovers {m : Type → Type} {V : Type} {type : DeclaredType}
    {method : DeclaredMethod} {rules : List (InstrumentRule m V × Nat)} {sink final : V}
    {calls : List (AnsweredCall Nat Nat V)} (h : PlacesApply type method rules sink calls final) :
    let handed := calls.filterMap AnsweredCall.handover?
    handed.countP Handover.isConsultation = rules.length ∧
      ∀ handover ∈ handed, handover.method = method := by
  induction h with
  | nil => exact ⟨rfl, fun _ member => absurd member List.not_mem_nil⟩
  | @pass _ _ _ _ _ calls asked _ ih =>
      obtain ⟨consulted, only⟩ := ih
      cases asked
      refine ⟨?_, List.forall_mem_cons.mpr ⟨rfl, only⟩⟩
      show (.toMatcher method :: calls.filterMap _ : List Handover).countP _ = _
      rw [List.countP_cons_of_pos rfl, consulted, List.length_cons]
  | @wrap _ _ _ _ _ _ calls asked _ ih =>
      obtain ⟨consulted, only⟩ := ih
      cases asked
      refine ⟨?_, List.forall_mem_cons.mpr ⟨rfl, List.forall_mem_cons.mpr ⟨rfl, only⟩⟩⟩
      show (.toMatcher method :: .toWrapper method :: calls.filterMap _ : List Handover).countP _ = _
      rw [List.countP_cons_of_pos rfl, List.countP_cons_of_neg Bool.false_ne_true, consulted,
        List.length_cons]

namespace Instrumentation

variable {ω V : Type} [Logs (StateM ω)] {type : DeclaredType} {method : DeclaredMethod}
  {header : MethodHeader} {inner : ClassSink (StateM ω) V} {world : ω} {sink : V}

/-- What matchers and wrappers are handed while a method is begun, as the recorded calls tell. -/
def handovers (instrumentation : Instrumentation (StateM ω) V) (type : DeclaredType)
    (inner : ClassSink (StateM ω) V) (header : MethodHeader) (world : ω) : List Handover :=
  let visit := ((instrumentation.recorded 0).wrap type inner.recorded).beginMethod header
  (visit.run [] world).1.2.filterMap AnsweredCall.handover?

theorem handovers_of_unknown {instrumentation : Instrumentation (StateM ω) V}
    (unknown : type.find? header.key = none) :
    instrumentation.handovers type inner header world = [] := by
  obtain ⟨calls, run, outcome⟩ := beginMethod_recorded
    (fun _ => instrumentation.records_rules 0) inner world
  rcases outcome with ⟨_, rfl, _⟩ | ⟨_, _, _, _, found, _⟩
  · rw [handovers, run]
    rfl
  · cases unknown.symm.trans found

/-- A method that is found under the key of the visited one is all that is handed over, to
every matcher once. -/
theorem handovers_of_find? (instrumentation : Instrumentation (StateM ω) V)
    (provided : (inner.beginMethod header world).1 = some sink)
    (found : type.find? header.key = some method) :
    let handed := instrumentation.handovers type inner header world
    handed.countP Handover.isConsultation = instrumentation.rules.length ∧
      ∀ handover ∈ handed, handover.method = method := by
  obtain ⟨calls, run, outcome⟩ := beginMethod_recorded
    (fun _ => instrumentation.records_rules 0) inner world
  rcases outcome with ⟨isNone | isNone, _⟩ | ⟨_, _, _, _, isFound, _, applied⟩
  · cases provided.symm.trans isNone
  · cases found.symm.trans isNone
  · cases found.symm.trans isFound
    rw [handovers, run, ← List.length_zipIdx]
    exact applied.handovers

end Instrumentation

/-! ## Keys -/

namespace DeclaredType

/-- The type declares a method with exactly this name and this descriptor. -/
def Declares (type : DeclaredType) (name descriptor : String) : Prop :=
  ∃ method ∈ type.methods, method.name.text = name ∧ method.descriptor = descriptor

/-- Every visit is dispatched to the method it is for. Whatever the instrumentation, the class
sink and the world, if a method is begun that has a valid name and a descriptor and that the
class sink provides a sink for, then every matcher is consulted just if the type declares the
method, and all that is handed over has its name and its descriptor. -/
def Dispatches (type : DeclaredType) : Prop :=
  ∀ (ω V : Type) [Logs (StateM ω)] (instrumentation : Instrumentation (StateM ω) V)
    (inner : ClassSink (StateM ω) V) (header : MethodHeader) (world : ω),
    (∃ name, UnqualifiedName.ofString header.name = .ok name) →
    (∃ methodType, MethodType.parse header.descriptor = .ok methodType) →
    (inner.beginMethod header world).1.isSome →
    let handed := instrumentation.handovers type inner header world
    (type.Declares header.name header.descriptor →
      handed.countP Handover.isConsultation = instrumentation.rules.length) ∧
    (¬ type.Declares header.name header.descriptor → handed = []) ∧
    (∀ handover ∈ handed, handover.method.name.text = header.name ∧
      handover.method.descriptor = header.descriptor)

/-- The key of every declared method is a name followed by a descriptor in one way only. -/
def ReadsOneWay (type : DeclaredType) : Prop :=
  ∀ method ∈ type.methods, ∀ (name : UnqualifiedName) (methodType : MethodType),
    name.text ++ methodType.descriptor = method.key → name = method.name ∧ methodType = method.type

variable {type : DeclaredType}

/-- Where keys can be read in one way, what is found under a key is the visited method. -/
theorem dispatches_of_readsOneWay (h : type.ReadsOneWay) : type.Dispatches := by
  intro ω V _ instrumentation inner header world validName validDescriptor provided handed
  obtain ⟨name, named⟩ := validName
  obtain ⟨methodType, parsed⟩ := validDescriptor
  obtain ⟨sink, provided⟩ := Option.isSome_iff_exists.mp provided
  have nameText := UnqualifiedName.ofString_eq_ok_iff.mp named
  have descriptorText := MethodType.parse_eq_ok_iff.mp parsed
  cases found : type.find? header.key with
  | none =>
      have empty : handed = [] := Instrumentation.handovers_of_unknown found
      have undeclared : ¬ type.Declares header.name header.descriptor := by
        rintro ⟨method, declared, hName, hDescriptor⟩
        have key : method.key = header.key := by
          rw [DeclaredMethod.key, MethodHeader.key, hName, hDescriptor]
        obtain ⟨other, isSome⟩ := exists_find?_eq_some ⟨method, declared, key⟩
        rw [found] at isSome
        cases isSome
      refine ⟨fun declared => absurd declared undeclared, fun _ => empty, ?_⟩
      rw [empty]
      intro handover member
      cases member
  | some method =>
      obtain ⟨declared, key⟩ := find?_eq_some found
      have reading : name.text ++ methodType.descriptor = method.key := by
        rw [key, MethodHeader.key, nameText, descriptorText]
      obtain ⟨rfl, rfl⟩ := h method declared name methodType reading
      obtain ⟨consulted, only⟩ := instrumentation.handovers_of_find? provided found
      have declares : type.Declares header.name header.descriptor :=
        ⟨method, declared, nameText, descriptorText.symm⟩
      refine ⟨fun _ => consulted, fun undeclared => absurd declares undeclared, ?_⟩
      intro handover member
      rw [only handover member]
      exact ⟨nameText, descriptorText.symm⟩

/-- With one rule in place, what is found under a key is handed to its matcher. -/
theorem eq_of_dispatches {key : String} {method : DeclaredMethod}
    (h : type.Dispatches) (found : type.find? key = some method) (name : UnqualifiedName)
    (methodType : MethodType) (reading : name.text ++ methodType.descriptor = key) :
    method.name = name ∧ method.type = methodType := by
  let rule : InstrumentRule (StateM Unit) Unit := ⟨.any, fun _ _ sink => pure sink⟩
  let inner : ClassSink (StateM Unit) Unit := ⟨fun _ => pure (some ()), pure (.ok ())⟩
  let header : MethodHeader := ⟨.empty, name.text, methodType.descriptor, none, []⟩
  let instrumentation : Instrumentation (StateM Unit) Unit := ⟨[rule], .empty, .empty⟩
  let silent : Logs (StateM Unit) := ⟨fun _ => pure ()⟩
  have keyed : type.find? header.key = some method := by
    rw [MethodHeader.key, reading]
    exact found
  have provided : (inner.beginMethod header ()).1 = some () := rfl
  obtain ⟨consulted, only⟩ := instrumentation.handovers_of_find? provided keyed
  obtain ⟨_, _, faithful⟩ := h Unit Unit instrumentation inner header ()
    ⟨name, UnqualifiedName.ofString_eq_ok_iff.mpr rfl⟩ ⟨methodType, methodType.parse_descriptor⟩ rfl
  have some : 0 < (instrumentation.handovers type inner header ()).countP
      Handover.isConsultation := by
    rw [consulted]
    exact Nat.one_pos
  obtain ⟨handover, member, _⟩ := List.countP_pos_iff.mp some
  obtain ⟨sameName, sameDescriptor⟩ := faithful handover member
  rw [only handover member] at sameName sameDescriptor
  exact ⟨UnqualifiedName.text_injective sameName, MethodType.descriptor_injective sameDescriptor⟩

/-- The key of a declared method finds the same method however it is read. -/
theorem readsOneWay_of_dispatches (h : type.Dispatches) : type.ReadsOneWay := by
  intro method declared name methodType reading
  obtain ⟨found, isFound⟩ := exists_find?_eq_some ⟨method, declared, rfl⟩
  obtain ⟨ownName, ownType⟩ := eq_of_dispatches h isFound method.name method.type rfl
  obtain ⟨otherName, otherType⟩ := eq_of_dispatches h isFound name methodType reading
  exact ⟨otherName.symm.trans ownName, otherType.symm.trans ownType⟩

/-- Between a name and a descriptor stands a parenthesis that opens. -/
theorem toList_append_descriptor (name : String) (methodType : MethodType) :
    (name ++ methodType.descriptor).toList = name.toList ++ '(' :: methodType.chars.tail := by
  rw [String.toList_append, MethodType.descriptor, String.toList_ofList]
  rfl

/-- The part of a key before its only opening parenthesis is the name. -/
theorem readsOneWay_of_count (h : ∀ method ∈ type.methods, method.key.toList.count '(' = 1) :
    type.ReadsOneWay := by
  intro method declared name methodType reading
  have single := h method declared
  have parts : method.key.toList = method.name.text.toList ++ '(' :: method.type.chars.tail :=
    toList_append_descriptor method.name.text method.type
  rw [parts, List.count_append, List.count_cons_self] at single
  have absent : '(' ∉ method.name.text.toList := List.count_eq_zero.mp (by omega)
  have noMore : '(' ∉ method.type.chars.tail := List.count_eq_zero.mp (by omega)
  rw [← reading, toList_append_descriptor] at parts
  obtain ⟨sameName, _, sameTail⟩ :=
    (List.append_cons_inj_of_notMem absent noMore).mp parts.symm
  have sameChars : methodType.chars = method.type.chars := by
    show '(' :: methodType.chars.tail = '(' :: method.type.chars.tail
    rw [sameTail]
  refine ⟨UnqualifiedName.text_injective (String.toList_inj.mp sameName.symm), ?_⟩
  exact MethodType.descriptor_injective (congrArg String.ofList sameChars)

/-- **Which types are dispatched.** Visits of a type are dispatched to the methods they are for
if and only if the key of no declared method can be read in a second way. -/
theorem dispatches_iff (type : DeclaredType) : type.Dispatches ↔ type.ReadsOneWay :=
  ⟨readsOneWay_of_dispatches, dispatches_of_readsOneWay⟩

/-- A class name with a parenthesis is enough: a visit of `f(LA` with an argument of class `b`
reaches the declared `f` with an argument of class `A(Lb`. -/
theorem not_dispatches_of_parenthesis :
    let argument : FieldType := .object ⟨"A(Lb", by decide⟩
    let declared : DeclaredMethod := ⟨⟨"f", by decide⟩, ⟨[argument], none⟩, .empty⟩
    let type : DeclaredType := ⟨⟨"a/B", by decide⟩, [declared]⟩
    type.find? ("f(LA" ++ "(Lb;)V") = some declared ∧ ¬ type.Declares "f(LA" "(Lb;)V" ∧
      ¬ type.Dispatches := by
  intro argument declared type
  have found : type.find? ("f(LA" ++ "(Lb;)V") = some declared := by decide
  refine ⟨found, ?_, ?_⟩
  · rintro ⟨method, member, name, _⟩
    obtain rfl := List.mem_singleton.mp member
    revert name
    decide
  · intro dispatches
    obtain ⟨name, _⟩ := eq_of_dispatches dispatches found ⟨"f(LA", by decide⟩
      ⟨[.object ⟨"b", by decide⟩], none⟩ (by decide)
    revert name
    decide

end DeclaredType

end JvmCode
