import JvmCode.Proofs.Instrument.Forwarding
import JvmCode.Proofs.Instrument.Recording
/-!
# What is called for a visited method, and in which order

Matchers are built from others by conjunction and disjunction, and the second part of one is only
consulted if the first leaves the answer open. A matcher may have effects, so it shows which of its
parts were consulted, and when. Wrappers may have effects as well, and each of them gets the sink
that those before it have left.

All of this is said by the recorded calls of one visit, in which leaves and wrappers have names.
Which lists of calls can come about is said twice by recursion, over the expression a matcher is
built from (`MatcherTree.Consults`) and over the entries of an instrumentation (`EntriesApply`), and
neither mentions how it is run.

The order of calls is also the order in which sinks are put around each other, so an instruction
meets them in the opposite order.

## Main results

* `MatcherTree.Consults.answer_eq_meaning`: parts that are not consulted do not matter.
* `MatcherTree.records_matcher`: what an expression consults.
* `Instrumentation.records_entries`: what the entries of an instrumentation call.
* `EntriesApply.isChain_made`: how sinks are put around each other.
* `Instrumentation.calls_in_order`: what is called in a visit, and whom an instruction reaches.
-/

namespace JvmCode

/-! ## Expressions of matchers -/

/-- An expression of matchers, which are known by name. -/
inductive MatcherTree (α : Type)
  | leaf (name : α)
  | and (first second : MatcherTree α)
  | or (first second : MatcherTree α)

namespace MatcherTree

variable {α β V : Type}

/-- The matcher that the expression stands for. -/
def matcher {m : Type → Type} [Monad m] (leaves : α → MethodMatcher m) :
    MatcherTree α → MethodMatcher m
  | leaf name => leaves name
  | and first second => (first.matcher leaves).and (second.matcher leaves)
  | or first second => (first.matcher leaves).or (second.matcher leaves)

/-- The truth value of the expression, by those of its leaves. -/
def meaning (truth : α → Bool) : MatcherTree α → Bool
  | leaf name => truth name
  | and first second => first.meaning truth && second.meaning truth
  | or first second => first.meaning truth || second.meaning truth

/-- To answer for the expression, leaves are consulted about the method by these calls, in this
order and with these answers, and by no others. -/
inductive Consults (method : DeclaredMethod) :
    MatcherTree α → List (AnsweredCall α β V) → Bool → Prop
  | leaf (name : α) (answer : Bool) :
      Consults method (.leaf name) [.consult name method answer] answer
  | and_of_false {first second : MatcherTree α} {asked : List (AnsweredCall α β V)}
      (settled : Consults method first asked false) :
      Consults method (.and first second) asked false
  | and_of_true {first second : MatcherTree α} {asked more : List (AnsweredCall α β V)}
      {answer : Bool} (isOpen : Consults method first asked true)
      (rest : Consults method second more answer) :
      Consults method (.and first second) (asked ++ more) answer
  | or_of_true {first second : MatcherTree α} {asked : List (AnsweredCall α β V)}
      (settled : Consults method first asked true) :
      Consults method (.or first second) asked true
  | or_of_false {first second : MatcherTree α} {asked more : List (AnsweredCall α β V)}
      {answer : Bool} (isOpen : Consults method first asked false)
      (rest : Consults method second more answer) :
      Consults method (.or first second) (asked ++ more) answer

namespace Consults

variable {method : DeclaredMethod} {tree : MatcherTree α} {asked : List (AnsweredCall α β V)}
  {answer : Bool}

/-- The answer is the truth value of the expression, as far as that is known from the leaves that
were consulted. -/
theorem answer_eq_meaning (h : tree.Consults method asked answer) {truth : α → Bool}
    (agrees : ∀ name answer, .consult name method answer ∈ asked → truth name = answer) :
    answer = tree.meaning truth := by
  induction h with
  | leaf name answer => exact (agrees name answer List.mem_cons_self).symm
  | and_of_false _ ih => rw [meaning, ← ih agrees, Bool.false_and]
  | or_of_true _ ih => rw [meaning, ← ih agrees, Bool.true_or]
  | and_of_true _ _ ih ihRest =>
      rw [meaning, ← ih fun name answer member => agrees name answer (List.mem_append_left _ member),
        ← ihRest fun name answer member => agrees name answer (List.mem_append_right _ member),
        Bool.true_and]
  | or_of_false _ _ ih ihRest =>
      rw [meaning, ← ih fun name answer member => agrees name answer (List.mem_append_left _ member),
        ← ihRest fun name answer member => agrees name answer (List.mem_append_right _ member),
        Bool.false_or]

/-- Nothing but leaves is called. -/
theorem exists_consult (h : tree.Consults method asked answer) {call : AnsweredCall α β V}
    (member : call ∈ asked) : ∃ name answer, call = .consult name method answer := by
  induction h with
  | leaf name answer => exact ⟨name, answer, List.mem_singleton.mp member⟩
  | and_of_false _ ih | or_of_true _ ih => exact ih member
  | and_of_true _ _ ih ihRest | or_of_false _ _ ih ihRest =>
      exact (List.mem_append.mp member).elim ih ihRest

end Consults

/-- What is recorded of an expression whose leaves are recorded. -/
theorem records_matcher {m : Type → Type} [Monad m] [LawfulMonad m]
    (leaves : α → MethodMatcher m) (method : DeclaredMethod) (tree : MatcherTree α) :
    Recording.Records
      (tree.matcher (fun name => (leaves name).recorded name) method :
        Recording m (AnsweredCall α β V) Bool)
      (tree.matcher leaves method) (tree.Consults method) := by
  induction tree with
  | leaf name =>
      refine (Recording.Records.calling _ _).mono ?_
      rintro _ answer rfl
      exact .leaf name answer
  | and first second ihFirst ihSecond =>
      refine ihFirst.bind fun answered asked consulted => ?_
      cases answered with
      | false =>
          refine .pure ?_
          rw [List.append_nil]
          exact .and_of_false consulted
      | true => exact ihSecond.mono fun more answer rest => .and_of_true consulted rest
  | or first second ihFirst ihSecond =>
      refine ihFirst.bind fun answered asked consulted => ?_
      cases answered with
      | true =>
          refine .pure ?_
          rw [List.append_nil]
          exact .or_of_true consulted
      | false => exact ihSecond.mono fun more answer rest => .or_of_false consulted rest

/-- Nothing is consulted without need. -/
example (method : DeclaredMethod) :
    let tree : MatcherTree Bool :=
      .or (.and (.leaf false) (.leaf true)) (.or (.leaf true) (.leaf false))
    let leaves : Bool → MethodMatcher (Recording Id (AnsweredCall Bool Unit Unit)) :=
      fun name => MethodMatcher.recorded (fun _ => pure name) name
    (tree.matcher leaves method).run []
      = (true, [.consult false method false, .consult true method true]) := rfl

end MatcherTree

/-! ## What entries call -/

/-- For a method, these calls are made for the entries in turn: the leaves of each matcher are
consulted, and if the matcher accepts the method, its wrapper is called right after, with the sink
that was built so far. The last sink is the final one. -/
abbrev EntriesApply {α β V : Type} (type : DeclaredType) (method : DeclaredMethod) :
    List (MatcherTree α × β) → V → List (AnsweredCall α β V) → V → Prop :=
  Applies (fun entry => entry.1.Consults method) fun entry => .wrap entry.2 type method

/-- The wrapper that is called, if one is, and the sink that it made. -/
def AnsweredCall.made? {α β V : Type} : AnsweredCall α β V → Option (β × V)
  | wrap name _ _ _ wrapped => some (name, wrapped)
  | _ => none

namespace EntriesApply

variable {α β V : Type} {type : DeclaredType} {method : DeclaredMethod}
  {entries : List (MatcherTree α × β)} {sink final : V} {calls : List (AnsweredCall α β V)}

/-- Consultations make no sinks. -/
theorem made_pass {tree : MatcherTree α} {asked : List (AnsweredCall α β V)} {answer : Bool}
    (consulted : tree.Consults method asked answer) (calls : List (AnsweredCall α β V)) :
    (asked ++ calls).filterMap AnsweredCall.made? = calls.filterMap AnsweredCall.made? := by
  have none : asked.filterMap AnsweredCall.made? = [] := by
    refine List.filterMap_eq_nil_iff.mpr fun call member => ?_
    obtain ⟨_, _, rfl⟩ := consulted.exists_consult member
    rfl
  rw [List.filterMap_append, none, List.nil_append]

theorem made_wrap {tree : MatcherTree α} {asked : List (AnsweredCall α β V)} {answer : Bool}
    (consulted : tree.Consults method asked answer) (name : β) (wrapped : V)
    (calls : List (AnsweredCall α β V)) :
    List.filterMap AnsweredCall.made? (asked ++ .wrap name type method sink wrapped :: calls)
      = (name, wrapped) :: calls.filterMap AnsweredCall.made? :=
  made_pass consulted (.wrap name type method sink wrapped :: calls)

/-- For entries, the class sink is not told of anything. -/
theorem begin_notMem (h : EntriesApply type method entries sink calls final)
    (header : MethodHeader) (provided : Option V) : .begin header provided ∉ calls := by
  induction h with
  | nil => exact List.not_mem_nil
  | pass consulted _ ih =>
      refine List.not_mem_append (fun member => ?_) ih
      obtain ⟨_, _, same⟩ := consulted.exists_consult member
      cases same
  | wrap consulted _ ih =>
      refine List.not_mem_append (fun member => ?_) ?_
      · obtain ⟨_, _, same⟩ := consulted.exists_consult member
        cases same
      · exact List.not_mem_cons_of_ne_of_not_mem nofun ih

/-- If the leaves answered by what is true, the wrappers that were called are those of the entries
whose expressions are true. -/
theorem wrappers_eq (h : EntriesApply type method entries sink calls final) {truth : α → Bool}
    (agrees : ∀ name answer, .consult name method answer ∈ calls → truth name = answer) :
    (calls.filterMap AnsweredCall.made?).map Prod.fst
      = (entries.filter fun entry => entry.1.meaning truth).map Prod.snd := by
  induction h with
  | nil => rfl
  | @pass entry entries sink final asked calls consulted _ ih =>
      have isFalse : false = entry.1.meaning truth := consulted.answer_eq_meaning
        fun name answer member => agrees name answer (List.mem_append_left _ member)
      rw [made_pass consulted, List.filter_cons_of_neg (by simp [← isFalse])]
      exact ih fun name answer member => agrees name answer (List.mem_append_right _ member)
  | @wrap entry entries sink wrapped final asked calls consulted _ ih =>
      have isTrue : true = entry.1.meaning truth := consulted.answer_eq_meaning
        fun name answer member => agrees name answer (List.mem_append_left _ member)
      rw [made_wrap consulted, List.filter_cons_of_pos (by simp [← isTrue]), List.map_cons,
        List.map_cons]
      refine congrArg (entry.2 :: ·) (ih fun name answer member => ?_)
      exact agrees name answer (List.mem_append_right _ (List.mem_cons_of_mem _ member))

/-- The first sink and those that wrappers made are each inside the next, and the final one is the
last. -/
theorem isChain_made (h : EntriesApply type method entries sink calls final)
    {Around : V → V → Prop}
    (around : ∀ name inner wrapped, .wrap name type method inner wrapped ∈ calls →
      Around inner wrapped) :
    let sinks := sink :: (calls.filterMap AnsweredCall.made?).map Prod.snd
    sinks.IsChain Around ∧ sinks.getLast? = some final := by
  induction h with
  | nil => exact ⟨.singleton _, rfl⟩
  | @pass entry entries sink final asked calls consulted _ ih =>
      rw [made_pass consulted]
      exact ih fun name inner wrapped member =>
        around name inner wrapped (List.mem_append_right _ member)
  | @wrap entry entries sink wrapped final asked calls consulted _ ih =>
      obtain ⟨chain, last⟩ := ih fun name inner wrapped member =>
        around name inner wrapped (List.mem_append_right _ (List.mem_cons_of_mem _ member))
      have own : Around sink wrapped :=
        around entry.2 sink wrapped (List.mem_append_right _ List.mem_cons_self)
      rw [made_wrap consulted, List.map_cons]
      exact ⟨List.isChain_cons_cons.mpr ⟨own, chain⟩, List.getLast?_cons_cons.trans last⟩

end EntriesApply

/-! ## The last method of a key -/

namespace DeclaredType

/-- The method is declared, it has the key, and no method after it does. -/
def IsLast (type : DeclaredType) (key : String) (method : DeclaredMethod) : Prop :=
  ∃ before after, type.methods = before ++ method :: after ∧ method.key = key ∧
    ∀ later ∈ after, later.key ≠ key

theorem isLast_of_find? {type : DeclaredType} {key : String} {method : DeclaredMethod}
    (found : type.find? key = some method) : type.IsLast key method := by
  obtain ⟨isKey, after, before, split, notKey⟩ := List.find?_eq_some_iff_append.mp found
  refine ⟨before.reverse, after.reverse, ?_, by simpa using isKey, fun later member => ?_⟩
  · rw [← List.reverse_reverse type.methods, split]
    simp
  · simpa using notKey later (List.mem_reverse.mp member)

end DeclaredType

namespace Instrumentation

/-! ## Instrumentations that are built -/

section Build

variable {m : Type → Type} {α β V : Type} [Monad m]

/-- The instrumentation that was built by adding these entries in turn. -/
def ofEntries (leaves : α → MethodMatcher m) (wrappers : β → SinkWrapper m V)
    (entries : List (MatcherTree α × β)) : Instrumentation m V :=
  entries.foldl (fun built entry => built.method (entry.1.matcher leaves) (wrappers entry.2)) .empty

/-- The rule for one entry. -/
def ruleOf (leaves : α → MethodMatcher m) (wrappers : β → SinkWrapper m V)
    (entry : MatcherTree α × β) : InstrumentRule m V :=
  ⟨entry.1.matcher leaves, wrappers entry.2⟩

theorem rules_ofEntries (leaves : α → MethodMatcher m) (wrappers : β → SinkWrapper m V)
    (entries : List (MatcherTree α × β)) :
    (ofEntries leaves wrappers entries).rules = entries.map (ruleOf leaves wrappers) := by
  have fold : ∀ start : Instrumentation m V,
      (entries.foldl
        (fun built entry => built.method (entry.1.matcher leaves) (wrappers entry.2)) start).rules
        = start.rules ++ entries.map (ruleOf leaves wrappers) := by
    induction entries with
    | nil => exact fun start => (List.append_nil _).symm
    | cons entry entries ih =>
        intro start
        rw [List.foldl_cons, ih, List.map_cons, method, List.append_assoc]
        rfl
  exact fold .empty

/-- The instrumentation built from these entries, with its calls recorded under the names in
them. -/
def recordedEntries (leaves : α → MethodMatcher m) (wrappers : β → SinkWrapper m V)
    (entries : List (MatcherTree α × β)) :
    Instrumentation (Recording m (AnsweredCall α β V)) V :=
  ofEntries (fun name => (leaves name).recorded name) (fun name => (wrappers name).recorded name)
    entries

/-- What is recorded of the entries of an instrumentation. -/
theorem records_entries [LawfulMonad m] [Logs m] (leaves : α → MethodMatcher m)
    (wrappers : β → SinkWrapper m V) (entries : List (MatcherTree α × β)) (type : DeclaredType)
    (header : MethodHeader) (method : DeclaredMethod) (sink : V) :
    Recording.Records
      (applyRules type method header (recordedEntries leaves wrappers entries).rules sink)
      (applyRules type method header (ofEntries leaves wrappers entries).rules sink)
      (EntriesApply type method entries sink) := by
  rw [recordedEntries, rules_ofEntries, rules_ofEntries]
  exact records_applyRules (fun entry => entry.1.records_matcher leaves method)
    (fun entry sink => .calling _ _) entries sink

end Build

variable {ω α β V : Type} [Logs (StateM ω)]

/-- The class sink behind an instrumentation is told of a method first, with the header as it came,
and is told once. Without a sink from it, or without a declared method of the key, nothing else is
called and its answer stands. Otherwise the last declared method of the key goes through all entries
in turn (`EntriesApply`). The wrappers that are called are those whose expressions are true.

Where the sinks that wrappers made forward, an instruction gets to that of the last wrapper first,
from there to the next one, and to the sink from the class sink last, whatever was handed over
before: each sink is inside the one before it (`Nested`), and so are the sinks that all of them have
become by being handed the instruction. The answer is the one from the end, and what each sink logs
of its own stands around what comes from inside. -/
theorem calls_in_order [MethodSink V] (leaves : α → MethodMatcher (StateM ω))
    (wrappers : β → SinkWrapper (StateM ω) V) (entries : List (MatcherTree α × β))
    (type : DeclaredType) (inner : ClassSink (StateM ω) V) (header : MethodHeader) (world : ω) :
    let told := inner.beginMethod header world
    let plain := ((ofEntries leaves wrappers entries).wrap type inner).beginMethod header world
    let recorded :=
      ((recordedEntries leaves wrappers entries).wrap type inner.recorded).beginMethod header
    ∃ calls, recorded.run [] world = ((plain.1, .begin header told.1 :: calls), plain.2) ∧
      (∀ again answer, .begin again answer ∉ calls) ∧
      ((told.1 = none ∨ ∀ method ∈ type.methods, method.key ≠ header.key) →
        calls = [] ∧ plain = told) ∧
      ∀ sink, told.1 = some sink → (∃ method ∈ type.methods, method.key = header.key) →
        ∃ method final, type.IsLast header.key method ∧ plain.1 = some final ∧
          EntriesApply type method entries sink calls final ∧
          (∀ truth : α → Bool,
            (∀ name answer, .consult name method answer ∈ calls → truth name = answer) →
              (calls.filterMap AnsweredCall.made?).map Prod.fst
                = (entries.filter fun entry => entry.1.meaning truth).map Prod.snd) ∧
          ∀ (earlier : List Visit) (instruction : Instruction) (inside : V → Option V)
            (before after : V → List LogRecord),
            let state : V → V := fun each => (Visit.handAll each earlier).1
            (∀ name inner wrapped, .wrap name type method inner wrapped ∈ calls →
              Forwards inside (before wrapped) (after wrapped) instruction
                (state wrapped) (state inner)) →
            let made := (calls.filterMap AnsweredCall.made?).map Prod.snd
            let reached := (sink :: made).reverse.map state
            let reply := MethodSink.accept instruction (state final)
            let handed := MethodSink.accept instruction (state sink)
            reached.head? = some (state final) ∧ Nested inside reached ∧
              Nested inside (reached.map fun each => (MethodSink.accept instruction each).sink) ∧
              reply.outcome = handed.outcome ∧
              reply.log = made.reverse.flatMap before ++ handed.log ++ made.flatMap after := by
  intro told plain recorded
  obtain ⟨calls, run, outcome⟩ :=
    beginMethod_recorded (records_entries leaves wrappers entries type header) inner world
  rw [← DeclaredType.find?_eq_none_iff]
  rcases outcome with ⟨reason, rfl, same⟩ |
    ⟨sink, method, final, provided, found, isFinal, applied⟩
  · refine ⟨[], run, fun _ _ => List.not_mem_nil, fun _ => ⟨rfl, same⟩, ?_⟩
    intro sink provided declared
    obtain ⟨method, found⟩ := DeclaredType.exists_find?_eq_some declared
    rcases reason with isNone | isNone
    · cases provided.symm.trans isNone
    · cases found.symm.trans isNone
  · refine ⟨calls, run, applied.begin_notMem, ?_, ?_⟩
    · rintro (isNone | isNone)
      · cases provided.symm.trans isNone
      · cases found.symm.trans isNone
    · intro _ isProvided _
      cases provided.symm.trans isProvided
      refine ⟨method, final, DeclaredType.isLast_of_find? found, isFinal, applied,
        fun _ agrees => applied.wrappers_eq agrees, ?_⟩
      intro earlier instruction inside before after state forwarding
      obtain ⟨chain, last⟩ := applied.isChain_made forwarding
      exact Forwards.along chain last

/-- Of four entries one does not match. The sink that was provided gets a tracer, a meter and another
tracer around it, and the last one of them shows an instruction first. -/
theorem calls_in_order_layers :
    let _ : Logs (StateM Unit) := ⟨fun _ => pure ()⟩
    let leaves : Bool → MethodMatcher (StateM Unit) := fun truth => .ofPred fun _ => truth
    let wrappers : Layer × String → SinkWrapper (StateM Unit) (AnyTower (Array Instruction)) :=
      fun layer _ _ sink => pure (sink.add layer.1 layer.2)
    let entries : List (MatcherTree Bool × Layer × String) :=
      [(.leaf true, .tracer, "first"), (.and (.leaf true) (.leaf false), .tracer, "never"),
        (.or (.leaf false) (.leaf true), .meter, ""), (.leaf true, .tracer, "last")]
    let method : DeclaredMethod := ⟨⟨"f", by decide⟩, ⟨[], none⟩, .empty⟩
    let type : DeclaredType := ⟨⟨"a/B", by decide⟩, [method]⟩
    let inner : ClassSink (StateM Unit) (AnyTower (Array Instruction)) :=
      ⟨fun _ => pure (some ⟨[], #[]⟩), pure (.ok ())⟩
    let f : MethodHeader := ⟨.empty, "f", "()V", none, []⟩
    let plain := ((ofEntries leaves wrappers entries).wrap type inner).beginMethod f ()
    ∃ final, plain.1 = some final ∧
      let reply := MethodSink.accept .nop final
      reply.log = [.visited "last" 0 .nop, .visited "first" 0 .nop] ∧
        Tower.base reply.sink.layers reply.sink.tower = #[.nop] := by
  intro silent leaves wrappers entries method type inner f plain
  obtain ⟨calls, run, _, _, asked⟩ := calls_in_order leaves wrappers entries type inner f ()
  let provided : AnyTower (Array Instruction) := ⟨[], #[]⟩
  let first := provided.add .tracer "first"
  let second := first.add .meter ""
  have areCalls : calls = [.consult true method true,
      .wrap (.tracer, "first") type method provided first, .consult true method true,
      .consult false method false, .consult false method false, .consult true method true,
      .wrap (.meter, "") type method first second, .consult true method true,
      .wrap (.tracer, "last") type method second (second.add .tracer "last")] :=
    List.tail_eq_of_cons_eq (congrArg (fun result => result.1.2) run).symm
  obtain ⟨last, final, _, isFinal, _, _, reaches⟩ :=
    asked provided rfl ⟨method, by simp [type], rfl⟩
  have forwarding : ∀ name inner wrapped, .wrap name type last inner wrapped ∈ calls →
      Forwards AnyTower.inside (AnyTower.own .nop wrapped) [] .nop wrapped inner := by
    intro name inner wrapped member
    have known : Instruction.nop.flow = .ok ⟨0, 0⟩ := rfl
    refine AnyTower.forwards known ?_
    simp only [areCalls, List.mem_cons, List.not_mem_nil, reduceCtorEq, false_or, or_false,
      AnsweredCall.wrap.injEq] at member
    rcases member with ⟨_, _, _, rfl, rfl⟩ | ⟨_, _, _, rfl, rfl⟩ | ⟨_, _, _, rfl, rfl⟩
    · exact AnyTower.inside_add ..
    · exact AnyTower.inside_add ..
    · exact AnyTower.inside_add ..
  obtain ⟨_, _, _, _, log⟩ := reaches [] .nop AnyTower.inside (AnyTower.own .nop) (fun _ => [])
    forwarding
  refine ⟨final, isFinal, log.trans ?_, ?_⟩
  · rw [areCalls]
    rfl
  · obtain rfl := Option.some.inj isFinal
    rfl

end Instrumentation

end JvmCode
