import JvmCode.Log.Record
/-!
# Sinks for method bodies

A *sink* receives the instructions of one method body, top to bottom, and may refuse any
of them. Its state changes with everything it is handed, also when it refuses; what it
logs meanwhile is part of the reply, and a sink never sees what was logged before.

Sinks are stacked: one that adds some behaviour holds another one and forwards to it.
The simplest sink is an array that collects instructions.

## Main results

* `Reply.map_id`, `Reply.map_map` — replies are carried along with the state.
-/

namespace JvmCode

/-! ## Replies -/

/-- The state a sink is left in, whether it accepted, and what was logged meanwhile. -/
structure Reply (σ : Type) where
  sink : σ
  outcome : Except EmitError Unit
  log : List LogRecord

namespace Reply

variable {σ τ υ : Type}

/-- The sink accepted. -/
def done (sink : σ) : Reply σ := ⟨sink, .ok (), []⟩

/-- The sink refused. -/
def refused (sink : σ) (error : EmitError) : Reply σ := ⟨sink, .error error, []⟩

/-- The same reply of a sink built around this one. -/
def map (f : σ → τ) (reply : Reply σ) : Reply τ := ⟨f reply.sink, reply.outcome, reply.log⟩

/-- The same reply after one more record. -/
def logging (record : LogRecord) (reply : Reply σ) : Reply σ :=
  ⟨reply.sink, reply.outcome, record :: reply.log⟩

theorem map_id (reply : Reply σ) : reply.map id = reply := rfl

theorem map_map (f : σ → τ) (g : τ → υ) (reply : Reply σ) :
    (reply.map f).map g = reply.map (g ∘ f) := rfl

end Reply

/-! ## Sinks -/

/-- States that receive a method body. A reference to a sink or a box around one is the sink
itself: what either is handed goes to the sink unchanged. -/
class MethodSink (σ : Type) where
  /-- Appends one instruction. -/
  accept : Instruction → σ → Reply σ
  /-- Appends one method call. -/
  acceptCall : MethodCall → σ → Reply σ := fun call => accept (.invoke call)
  /-- Records the largest stack depth and the number of local variables. -/
  setLimits : (maxStack maxLocals : UInt16) → σ → Reply σ := fun _ _ => .done
  /-- No more instructions will come. -/
  finish : σ → Reply σ := .done

namespace MethodSink

instance : MethodSink (Array Instruction) where
  accept instruction collected := .done (collected.push instruction)

end MethodSink

end JvmCode
