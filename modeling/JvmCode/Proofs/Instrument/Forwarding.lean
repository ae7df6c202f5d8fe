import JvmCode.Proofs.Sink.Taking
import JvmCode.Sink.Tower
import Mathlib.Data.List.Chain
/-!
# Sinks that forward

A sink that adds some behaviour holds another one and hands everything on to it. To say so without
knowing what else is in its state, there is a function that looks at the sink inside
(`Forwards.hands`): what is inside after an instruction is what the inner sink has become by being
handed it. How much the outer sink logs of its own is left open. A tracer logs one record, and a
meter logs none.

Where sinks are put around each other and each of them forwards, an instruction gets from the
outermost one to the innermost one, and the answer comes back. Both orders can be seen in what is
logged.

## Main results

* `Tracer.forwards`, `StackMeter.forwards`, `AnyTower.forwards`: layers forward.
* `Forwards.along`: an instruction gets through all of them.
-/

namespace JvmCode

/-! ## One sink in another -/

/-- When the outer sink is handed the instruction, so is the one inside. Then the outer one holds
what the inner one has become, and has given its answer. The outer one may log something before that
and something after it. -/
structure Forwards {σ τ : Type} [MethodSink σ] [MethodSink τ] (inside : τ → Option σ)
    (before after : List LogRecord) (instruction : Instruction) (outer : τ) (inner : σ) : Prop where
  holds : inside outer = some inner
  hands : inside (MethodSink.accept instruction outer).sink
    = some (MethodSink.accept instruction inner).sink
  outcome : (MethodSink.accept instruction outer).outcome
    = (MethodSink.accept instruction inner).outcome
  log : (MethodSink.accept instruction outer).log
    = before ++ (MethodSink.accept instruction inner).log ++ after

section Layers

variable {σ : Type} [MethodSink σ] {instruction : Instruction}

theorem Tracer.forwards (instruction : Instruction) (tracer : Tracer σ) :
    Forwards (fun outer : Tracer σ => some outer.inner)
      [.visited tracer.label tracer.handed instruction] [] instruction tracer tracer.inner where
  holds := rfl
  hands := congrArg some (inner_accept instruction tracer)
  outcome := outcome_accept instruction tracer
  log := (List.append_nil _).symm

/-- A meter forwards what it can measure. -/
theorem StackMeter.forwards {flow : SlotFlow} (known : instruction.flow = .ok flow)
    (meter : StackMeter σ) :
    Forwards (fun outer : StackMeter σ => some outer.inner) [] [] instruction meter meter.inner := by
  have visited : (Visit.instruction instruction).flow = .ok flow := known
  obtain ⟨sameOutcome, sameInner, _⟩ := hand_of_flow visited meter
  refine ⟨rfl, congrArg some sameInner, sameOutcome, ?_⟩
  show (accept instruction meter).log = _
  rw [accept, known, List.nil_append, List.append_nil]
  cases reply : MethodSink.accept instruction meter.inner with
  | mk inner outcome log => cases outcome <;> rfl

end Layers

/-! ## Many sinks in each other -/

/-- Each of the sinks is inside the one before it. -/
def Nested {V : Type} (inside : V → Option V) (sinks : List V) : Prop :=
  sinks.IsChain fun outer inner => inside outer = some inner

section Along

variable {V : Type} [MethodSink V] {inside : V → Option V} {before after : V → List LogRecord}
  {instruction : Instruction} {state : V → V} {sink final : V} {around : List V}

/-- The answer of the innermost sink comes back through all sinks that were put around it. -/
theorem Forwards.reply
    (chain : (sink :: around).IsChain fun inner outer =>
      Forwards inside (before outer) (after outer) instruction (state outer) (state inner))
    (last : (sink :: around).getLast? = some final) :
    let reply := MethodSink.accept instruction (state final)
    let handed := MethodSink.accept instruction (state sink)
    reply.outcome = handed.outcome ∧
      reply.log = around.reverse.flatMap before ++ handed.log ++ around.flatMap after := by
  induction around generalizing sink with
  | nil =>
      obtain rfl : sink = final := Option.some.inj last
      exact ⟨rfl, (List.append_nil _).symm⟩
  | cons outer around ih =>
      obtain ⟨own, others⟩ := List.isChain_cons_cons.mp chain
      rw [List.getLast?_cons_cons] at last
      obtain ⟨outcome, log⟩ := ih others last
      refine ⟨outcome.trans own.outcome, ?_⟩
      rw [log, own.log, List.reverse_cons]
      simp only [List.flatMap_append, List.flatMap_cons, List.flatMap_nil, List.append_nil,
        List.append_assoc]

/-- An instruction gets through all sinks that were put around one, the last of them first. -/
theorem Forwards.along
    (chain : (sink :: around).IsChain fun inner outer =>
      Forwards inside (before outer) (after outer) instruction (state outer) (state inner))
    (last : (sink :: around).getLast? = some final) :
    let reached := (sink :: around).reverse.map state
    let reply := MethodSink.accept instruction (state final)
    let handed := MethodSink.accept instruction (state sink)
    reached.head? = some (state final) ∧ Nested inside reached ∧
      Nested inside (reached.map fun each => (MethodSink.accept instruction each).sink) ∧
      reply.outcome = handed.outcome ∧
      reply.log = around.reverse.flatMap before ++ handed.log ++ around.flatMap after := by
  intro reached reply handed
  have inTurn : (sink :: around).reverse.IsChain fun outer inner =>
      Forwards inside (before outer) (after outer) instruction (state outer) (state inner) :=
    List.isChain_reverse.mpr chain
  refine ⟨?_, ?_, ?_, Forwards.reply chain last⟩
  · rw [List.head?_map, List.head?_reverse, last]
    rfl
  · exact List.isChain_map_of_isChain state (fun _ _ forwards => forwards.holds) inTurn
  · rw [List.map_map]
    exact List.isChain_map_of_isChain _ (fun _ _ forwards => forwards.hands) inTurn

end Along

/-! ## Towers of any layers -/

/-- Layers on a base, with the list of what they are. -/
structure AnyTower (σ : Type) where
  layers : List Layer
  tower : Tower σ layers

namespace AnyTower

variable {σ : Type}

/-- Puts one more layer around all others. The label is for tracers. -/
def add (layer : Layer) (label : String) : AnyTower σ → AnyTower σ
  | ⟨layers, tower⟩ =>
    match layer with
    | .meter => ⟨.meter :: layers, StackMeter.start tower⟩
    | .tracer => ⟨.tracer :: layers, Tracer.start label tower⟩

/-- What is inside the outermost layer. -/
def inside : AnyTower σ → Option (AnyTower σ)
  | ⟨[], _⟩ => none
  | ⟨.meter :: layers, tower⟩ => some ⟨layers, StackMeter.inner tower⟩
  | ⟨.tracer :: layers, tower⟩ => some ⟨layers, Tracer.inner tower⟩

/-- What the outermost layer logs of its own for an instruction. -/
def own (instruction : Instruction) : AnyTower σ → List LogRecord
  | ⟨.tracer :: _, tower⟩ => [.visited (Tracer.label tower) (Tracer.handed tower) instruction]
  | _ => []

theorem inside_add (layer : Layer) (label : String) (tower : AnyTower σ) :
    inside (tower.add layer label) = some tower := by
  cases layer <;> rfl

variable [MethodSink σ]

instance : MethodSink (AnyTower σ) where
  accept instruction | ⟨layers, tower⟩ => (MethodSink.accept instruction tower).map (mk layers)
  acceptCall call | ⟨layers, tower⟩ => (MethodSink.acceptCall call tower).map (mk layers)
  setLimits maxStack maxLocals
    | ⟨layers, tower⟩ => (MethodSink.setLimits maxStack maxLocals tower).map (mk layers)
  finish | ⟨layers, tower⟩ => (MethodSink.finish tower).map (mk layers)

/-- Every layer of a tower forwards the instructions that can be measured. -/
theorem forwards {instruction : Instruction} {flow : SlotFlow} (known : instruction.flow = .ok flow)
    {outer inner : AnyTower σ} (isInside : inside outer = some inner) :
    Forwards inside (own instruction outer) [] instruction outer inner := by
  obtain ⟨layers, tower⟩ := outer
  cases layers with
  | nil => cases isInside
  | cons layer layers =>
      cases layer with
      | meter =>
          obtain rfl := Option.some.inj isInside
          have whole := StackMeter.forwards (σ := Tower σ layers) known tower
          exact ⟨rfl, congrArg (Option.map (mk layers)) whole.hands, whole.outcome, whole.log⟩
      | tracer =>
          obtain rfl := Option.some.inj isInside
          have whole := Tracer.forwards (σ := Tower σ layers) instruction tower
          exact ⟨rfl, congrArg (Option.map (mk layers)) whole.hands, whole.outcome, whole.log⟩

end AnyTower

end JvmCode
