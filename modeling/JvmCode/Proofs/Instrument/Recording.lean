import JvmCode.Instrument.Instrumentation
import Mathlib.Tactic.Choose
/-!
# Recorded calls

An instrumentation calls the class sink behind it, matchers and wrappers, and all of these may have
effects. To say which of them are called, in which order, with which arguments and what they answer,
every call is *recorded* beside the effects it has (`Recording`). A record takes no part in what is
recorded: a run without its record is the run that was not recorded.

What a recording adds to the record is said by a property of the added calls and of the answer
(`Recording.Records`). There is one rule for every way to put effects together, and so the calls of
an instrumentation can be described by recursion over its rules (`Applies`). A rule is known by its
place in the instrumentation, unless it has names of its own.

## Main results

* `Recording.Records.bind`: records of two steps in turn.
* `Recording.Records.erases`, `Recording.Records.run`: recording changes nothing else.
* `Instrumentation.records_applyRules`: the calls of rules, whatever they are known by.
* `Instrumentation.beginMethod_recorded`: the calls of one visit.
-/

namespace JvmCode

variable {m : Type → Type} {κ τ υ : Type} [Monad m]

/-! ## Recordings -/

/-- Effects with the calls that were made so far beside them. -/
abbrev Recording (m : Type → Type) (κ : Type) := StateT (List κ) m

namespace Recording

/-- Effects that are no call. -/
def silently (effect : m τ) : Recording m κ τ := fun calls => (·, calls) <$> effect

/-- The effects of a call, which is told by what it answers. -/
def calling (call : τ → κ) (effect : m τ) : Recording m κ τ :=
  fun calls => (fun answer => (answer, calls ++ [call answer])) <$> effect

instance [Logs m] : Logs (Recording m κ) where
  log record := silently (Logs.log record)

/-- The recording has the effects and the answer, and adds calls to the record. What it adds and
what it answers are as described. A monad has no way to look at answers, so that is said by effects
that answer both together, in a subtype. -/
def Records (recording : Recording m κ τ) (effect : m τ) (described : List κ → τ → Prop) : Prop :=
  ∃ made : m {pair : List κ × τ // described pair.1 pair.2},
    (∀ calls, recording.run calls = (fun pair => (pair.1.2, calls ++ pair.1.1)) <$> made) ∧
    (fun pair => pair.1.2) <$> made = effect

namespace Records

variable [LawfulMonad m] {recording : Recording m κ τ} {effect : m τ}
  {described more : List κ → τ → Prop}

/-- What is added depends on the answer alone. -/
theorem of_run (added : τ → List κ)
    (run : ∀ calls, recording.run calls = (fun answer => (answer, calls ++ added answer)) <$> effect) :
    recording.Records effect fun calls answer => calls = added answer := by
  refine ⟨(fun answer => ⟨(added answer, answer), rfl⟩) <$> effect, fun calls => ?_, ?_⟩
  · rw [run, Functor.map_map]
  · rw [Functor.map_map]
    exact id_map effect

/-- An answer without effects adds nothing. -/
theorem pure {answer : τ} (h : described [] answer) :
    Records (Pure.pure answer : Recording m κ τ) (Pure.pure answer) described := by
  refine ⟨Pure.pure ⟨([], answer), h⟩, fun calls => ?_, map_pure ..⟩
  rw [StateT.run_pure, map_pure, List.append_nil]

theorem silently (effect : m τ) :
    Records (Recording.silently effect) effect fun (calls : List κ) _ => calls = [] :=
  of_run (fun _ => []) fun calls => by
    simp only [List.append_nil]
    rfl

theorem calling (call : τ → κ) (effect : m τ) :
    Records (Recording.calling call effect) effect fun calls answer => calls = [call answer] :=
  of_run (fun answer => [call answer]) fun _ => rfl

theorem mono (h : recording.Records effect described)
    (weaker : ∀ calls answer, described calls answer → more calls answer) :
    recording.Records effect more := by
  obtain ⟨made, run, erased⟩ := h
  refine ⟨(fun pair => ⟨pair.1, weaker _ _ pair.2⟩) <$> made, fun calls => ?_, ?_⟩
  · rw [run, Functor.map_map]
  · rw [Functor.map_map]
    exact erased

/-- Where both of two steps are recorded, so are the steps in turn. -/
theorem bind {next : τ → Recording m κ υ} {nextEffect : τ → m υ} {whole : List κ → υ → Prop}
    (h : recording.Records effect described)
    (rest : ∀ answer calls, described calls answer →
      (next answer).Records (nextEffect answer) fun added result => whole (calls ++ added) result) :
    Records (recording >>= next) (effect >>= nextEffect) whole := by
  obtain ⟨made, run, erased⟩ := h
  choose later runLater erasedLater using
    fun pair : {pair : List κ × τ // described pair.1 pair.2} => rest pair.1.2 pair.1.1 pair.2
  refine ⟨made >>= fun pair =>
    (fun after => ⟨(pair.1.1 ++ after.1.1, after.1.2), after.2⟩) <$> later pair, fun calls => ?_, ?_⟩
  · rw [StateT.run_bind, run, bind_map_left, map_bind]
    refine bind_congr fun pair => ?_
    rw [runLater, Functor.map_map]
    simp only [List.append_assoc]
  · rw [← erased, bind_map_left, map_bind]
    refine bind_congr fun pair => ?_
    rw [← erasedLater, Functor.map_map]

/-- Without its record, the recording is what was recorded. -/
theorem erases (h : recording.Records effect described) (calls : List κ) :
    Prod.fst <$> recording.run calls = effect := by
  obtain ⟨made, run, erased⟩ := h
  rw [run, Functor.map_map]
  exact erased

/-- In a world, a recording is the run and its calls. -/
theorem run {ω : Type} {recording : Recording (StateM ω) κ τ} {effect : StateM ω τ}
    (h : recording.Records effect described) (before : List κ) (world : ω) :
    ∃ calls, described calls (effect world).1 ∧
      recording.run before world = (((effect world).1, before ++ calls), (effect world).2) := by
  obtain ⟨made, run, erased⟩ := h
  rw [run, ← erased]
  exact ⟨(made world).1.1.1, (made world).1.2, rfl⟩

end Records

end Recording

/-! ## What is recorded -/

/-- A call that is made in a visit of a class, with its arguments and with what it answered.
Matchers are known by names in `α`, and wrappers by names in `β`. -/
inductive AnsweredCall (α β V : Type)
  /-- The class sink behind the instrumentation is told of a method. -/
  | begin (header : MethodHeader) (provided : Option V)
  /-- The class sink behind the instrumentation is told that no more members come. -/
  | finish (outcome : Except EmitError Unit)
  /-- A matcher is consulted. -/
  | consult (name : α) (method : DeclaredMethod) (answer : Bool)
  /-- A wrapper is called. -/
  | wrap (name : β) (type : DeclaredType) (method : DeclaredMethod) (sink wrapped : V)

section Recorded

variable {α β V : Type}

/-- The matcher with its consultations recorded under a name. -/
def MethodMatcher.recorded (matcher : MethodMatcher m) (name : α) :
    MethodMatcher (Recording m (AnsweredCall α β V)) :=
  fun method => .calling (.consult name method) (matcher method)

/-- The wrapper with its calls recorded under a name. -/
def SinkWrapper.recorded (wrapper : SinkWrapper m V) (name : β) :
    SinkWrapper (Recording m (AnsweredCall α β V)) V :=
  fun type method sink => .calling (.wrap name type method sink) (wrapper type method sink)

/-- The class sink with everything recorded that it is told. -/
def ClassSink.recorded (sink : ClassSink m V) :
    ClassSink (Recording m (AnsweredCall α β V)) V where
  beginMethod header := .calling (.begin header) (sink.beginMethod header)
  finish := .calling .finish sink.finish

/-- The rule with its calls recorded, for a rule at this place. -/
def InstrumentRule.recorded (rule : InstrumentRule m V) (place : Nat) :
    InstrumentRule (Recording m (AnsweredCall Nat Nat V)) V where
  matcher := rule.matcher.recorded place
  wrapper := rule.wrapper.recorded place

/-- The instrumentation with its calls recorded; its rules are at the places from this one on. -/
def Instrumentation.recorded (instrumentation : Instrumentation m V) (first : Nat) :
    Instrumentation (Recording m (AnsweredCall Nat Nat V)) V where
  rules := (instrumentation.rules.zipIdx first).map fun (rule, place) => rule.recorded place
  writerFlags := instrumentation.writerFlags
  readerFlags := instrumentation.readerFlags

end Recorded

/-! ## Calls of rules -/

/-- Rules are gone through in turn, from a sink on. Each rule is asked, and if it accepts, its
wrapper is called right after, with the sink that was built so far. The last sink is the final
one. -/
inductive Applies {ι κ V : Type} (asks : ι → List κ → Bool → Prop) (wraps : ι → V → V → κ) :
    List ι → V → List κ → V → Prop
  | nil (sink : V) : Applies asks wraps [] sink [] sink
  | pass {rule : ι} {rules : List ι} {sink final : V} {asked calls : List κ}
      (declined : asks rule asked false) (rest : Applies asks wraps rules sink calls final) :
      Applies asks wraps (rule :: rules) sink (asked ++ calls) final
  | wrap {rule : ι} {rules : List ι} {sink wrapped final : V} {asked calls : List κ}
      (accepted : asks rule asked true) (rest : Applies asks wraps rules wrapped calls final) :
      Applies asks wraps (rule :: rules) sink (asked ++ wraps rule sink wrapped :: calls) final

/-- Rules with places are gone through in turn; each of them asks its matcher once. -/
abbrev PlacesApply {V : Type} (type : DeclaredType) (method : DeclaredMethod) :
    List (InstrumentRule m V × Nat) → V → List (AnsweredCall Nat Nat V) → V → Prop :=
  Applies (fun rule calls answer => calls = [.consult rule.2 method answer])
    fun rule => .wrap rule.2 type method

namespace Instrumentation

variable {ι V : Type} [Logs m] {type : DeclaredType} {method : DeclaredMethod}
  {header : MethodHeader}

section Rules

variable [LawfulMonad m]

/-- What is recorded of rules in turn is put together from what is recorded of each of them. -/
theorem records_applyRules {plain : ι → InstrumentRule m V}
    {recorded : ι → InstrumentRule (Recording m κ) V} {asks : ι → List κ → Bool → Prop}
    {wraps : ι → V → V → κ}
    (matcher : ∀ rule,
      Recording.Records ((recorded rule).matcher method) ((plain rule).matcher method) (asks rule))
    (wrapper : ∀ rule sink,
      Recording.Records ((recorded rule).wrapper type method sink)
        ((plain rule).wrapper type method sink)
        fun calls wrapped => calls = [wraps rule sink wrapped])
    (rules : List ι) (sink : V) :
    Recording.Records (applyRules type method header (rules.map recorded) sink)
      (applyRules type method header (rules.map plain) sink) (Applies asks wraps rules sink) := by
  induction rules generalizing sink with
  | nil => exact .pure (.nil sink)
  | cons rule rules ih =>
      rw [List.map_cons, List.map_cons, applyRules, applyRules]
      refine (matcher rule).bind fun matched asked answered => ?_
      cases matched with
      | true =>
          -- the decision is logged, which is no call
          refine (Recording.Records.silently _).bind ?_
          rintro _ _ rfl
          refine (wrapper rule sink).bind ?_
          rintro wrapped _ rfl
          refine (ih wrapped).mono fun calls final applied => ?_
          exact .wrap answered applied
      | false => exact (ih sink).mono fun calls final applied => .pass answered applied

/-- What is recorded of the rules of an instrumentation, which are known by their places. -/
theorem records_rules (instrumentation : Instrumentation m V) (first : Nat) (sink : V) :
    Recording.Records
      (applyRules type method header (instrumentation.recorded first).rules sink)
      (applyRules type method header instrumentation.rules sink)
      (PlacesApply type method (instrumentation.rules.zipIdx first) sink) := by
  have run : Recording.Records
      (applyRules type method header
        ((instrumentation.rules.zipIdx first).map fun (rule, place) => rule.recorded place) sink)
      (applyRules type method header ((instrumentation.rules.zipIdx first).map Prod.fst) sink)
      (PlacesApply type method (instrumentation.rules.zipIdx first) sink) :=
    records_applyRules (fun _ => .calling _ _) (fun _ _ => .calling _ _) _ sink
  rw [List.zipIdx_map_fst] at run
  exact run

end Rules

/-! ## Calls of a visit -/

/-- What an instrumentation answers for a method, after the class sink has answered. -/
def answer (instrumentation : Instrumentation m V) (type : DeclaredType) (header : MethodHeader) :
    Option V → m (Option V)
  | none => return none
  | some provided => return some (← instrumentation.instrument type header provided)

theorem beginMethod_wrap (instrumentation : Instrumentation m V) (type : DeclaredType)
    (inner : ClassSink m V) (header : MethodHeader) :
    (instrumentation.wrap type inner).beginMethod header
      = inner.beginMethod header >>= instrumentation.answer type header := rfl

variable [LawfulMonad m]

/-- Without a sink, or without a declared method of the key, the answer of the class sink stands. -/
theorem answer_eq_pure {instrumentation : Instrumentation m V} {provided : Option V}
    (unasked : provided = none ∨ type.find? header.key = none) :
    instrumentation.answer type header provided = pure provided := by
  cases provided with
  | none => rfl
  | some sink =>
      have unknown : type.find? header.key = none := unasked.resolve_left nofun
      rw [answer, instrument, unknown]
      exact pure_bind ..

/-- What is recorded for a method after the class sink has answered: nothing, or what is recorded
for the rules with the declared method of the key. -/
theorem records_answer {recording : Instrumentation (Recording m κ) V}
    {instrumentation : Instrumentation m V} {described : DeclaredMethod → V → List κ → V → Prop}
    (rules : ∀ method sink,
      Recording.Records (applyRules type method header recording.rules sink)
        (applyRules type method header instrumentation.rules sink) (described method sink))
    (provided : Option V) :
    Recording.Records (recording.answer type header provided)
      (instrumentation.answer type header provided) fun calls answer =>
        (provided = none ∨ type.find? header.key = none) ∧ calls = [] ∨
        ∃ sink method final, provided = some sink ∧ type.find? header.key = some method ∧
          answer = some final ∧ described method sink calls final := by
  by_cases unasked : provided = none ∨ type.find? header.key = none
  · rw [answer_eq_pure unasked, answer_eq_pure unasked]
    exact .pure (.inl ⟨unasked, rfl⟩)
  · obtain ⟨notNone, notUnknown⟩ := not_or.mp unasked
    obtain ⟨sink, rfl⟩ := Option.ne_none_iff_exists'.mp notNone
    obtain ⟨method, found⟩ := Option.ne_none_iff_exists'.mp notUnknown
    simp only [answer, instrument, found]
    refine (rules method sink).bind fun final calls applied => ?_
    refine .pure (.inr ⟨sink, method, final, rfl, rfl, rfl, ?_⟩)
    rw [List.append_nil]
    exact applied

/-- **The calls of one visit.** A visit does the same without its record. The class sink is told of
the method first, with the header as it came. Without a sink from it, or without a declared method
of the key, nothing else is called and its answer stands. Otherwise the rules are gone through. -/
theorem beginMethod_recorded {ω α β : Type} [Logs (StateM ω)]
    {recording : Instrumentation (Recording (StateM ω) (AnsweredCall α β V)) V}
    {instrumentation : Instrumentation (StateM ω) V}
    {described : DeclaredMethod → V → List (AnsweredCall α β V) → V → Prop}
    (rules : ∀ method sink,
      Recording.Records (applyRules type method header recording.rules sink)
        (applyRules type method header instrumentation.rules sink) (described method sink))
    (inner : ClassSink (StateM ω) V) (world : ω) :
    let told := inner.beginMethod header world
    let plain := (instrumentation.wrap type inner).beginMethod header world
    let recorded := (recording.wrap type inner.recorded).beginMethod header
    ∃ calls, recorded.run [] world = ((plain.1, .begin header told.1 :: calls), plain.2) ∧
      ((told.1 = none ∨ type.find? header.key = none) ∧ calls = [] ∧ plain = told ∨
        ∃ sink method final, told.1 = some sink ∧ type.find? header.key = some method ∧
          plain.1 = some final ∧ described method sink calls final) := by
  intro told plain recorded
  obtain ⟨calls, outcome, run⟩ :=
    (records_answer rules told.1).run [.begin header told.1] told.2
  refine ⟨calls, run, outcome.imp_left fun ⟨unasked, empty⟩ => ⟨unasked, empty, ?_⟩⟩
  show instrumentation.answer type header told.1 told.2 = told
  rw [answer_eq_pure unasked]
  rfl

end Instrumentation

end JvmCode
