import JvmCode.Sink.Basic
/-!
# Visits

A `Visit` is one thing that is handed to a sink. A sink can be handed a whole sequence of
visits; it is handed the later ones also after it refused one.

## Main results

* `handAll_nil`, `handAll_cons`, `handAll_append` — how a sequence is handed over.
* `accepted_cons` — what is accepted of a sequence, visit by visit.
-/

namespace JvmCode

/-- Something that is handed to a sink. -/
inductive Visit
  | instruction (instruction : Instruction)
  | call (call : MethodCall)
  | limits (maxStack maxLocals : UInt16)
  | finish

namespace Visit

/-- The instruction that is handed over, if it is one. -/
def instruction? : Visit → Option Instruction
  | .instruction delivered => some delivered
  | .call delivered => some (.invoke delivered)
  | .limits _ _ | .finish => none

variable {σ : Type} [MethodSink σ]

/-- Hands something to a sink. -/
def hand : Visit → σ → Reply σ
  | .instruction delivered => MethodSink.accept delivered
  | .call delivered => MethodSink.acceptCall delivered
  | .limits maxStack maxLocals => MethodSink.setLimits maxStack maxLocals
  | .finish => MethodSink.finish

/-- Hands everything to a sink in turn, whatever it answers; answers the sink in the end and
the outcomes in order. -/
def handAll (sink : σ) : List Visit → σ × List (Except EmitError Unit)
  | [] => (sink, [])
  | visit :: visits =>
    let reply := visit.hand sink
    let (sink, outcomes) := handAll reply.sink visits
    (sink, reply.outcome :: outcomes)

/-- The instructions among the visits whose outcome is that they were accepted. -/
def accepted (visits : List Visit) (outcomes : List (Except EmitError Unit)) :
    List Instruction :=
  (visits.zip outcomes).filterMap fun (visit, outcome) =>
    match outcome with
    | .ok () => visit.instruction?
    | .error _ => none

theorem handAll_nil (sink : σ) : handAll sink [] = (sink, []) := rfl

theorem handAll_cons (sink : σ) (visit : Visit) (visits : List Visit) :
    handAll sink (visit :: visits)
      = ((handAll (visit.hand sink).sink visits).1,
          (visit.hand sink).outcome :: (handAll (visit.hand sink).sink visits).2) := rfl

theorem handAll_append (sink : σ) (visits later : List Visit) :
    handAll sink (visits ++ later)
      = ((handAll (handAll sink visits).1 later).1,
          (handAll sink visits).2 ++ (handAll (handAll sink visits).1 later).2) := by
  induction visits generalizing sink with
  | nil => rfl
  | cons visit visits ih =>
    rw [List.cons_append, handAll_cons, handAll_cons, ih]
    rfl

/-- What is accepted of a run is accepted of its first visit, then of the others. -/
theorem accepted_cons (visit : Visit) (visits : List Visit) (outcome : Except EmitError Unit)
    (outcomes : List (Except EmitError Unit)) :
    accepted (visit :: visits) (outcome :: outcomes)
      = accepted [visit] [outcome] ++ accepted visits outcomes := by
  unfold accepted
  rw [List.zip_cons_cons, ← List.singleton_append, List.filterMap_append]
  rfl

end Visit

end JvmCode
