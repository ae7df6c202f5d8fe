import JvmCode.Sink.Basic
/-!
# Tracing method bodies

A `Tracer` logs everything under a label before it forwards it to another sink. It
numbers the instructions it is handed, also those the other sink refuses.

## Main results

* `outcome_accept`, `inner_accept` — tracing changes neither answers nor the inner sink.
-/

namespace JvmCode

/-- A sink with a label and the number of instructions it was handed. -/
structure Tracer (σ : Type) where
  label : String
  inner : σ
  handed : Nat

namespace Tracer

variable {σ : Type}

/-- A tracer at its start. -/
def start (label : String) (inner : σ) : Tracer σ := ⟨label, inner, 0⟩

variable [MethodSink σ]

/-- Logs an instruction and forwards it. -/
def accept (instruction : Instruction) : Tracer σ → Reply (Tracer σ)
  | ⟨label, inner, handed⟩ =>
    ((MethodSink.accept instruction inner).map fun inner => ⟨label, inner, handed + 1⟩).logging
      (.visited label handed instruction)

instance : MethodSink (Tracer σ) where
  accept := accept
  setLimits maxStack maxLocals
    | ⟨label, inner, handed⟩ =>
      ((MethodSink.setLimits maxStack maxLocals inner).map fun inner =>
        ⟨label, inner, handed⟩).logging (.limited label maxStack maxLocals)
  finish
    | ⟨label, inner, handed⟩ =>
      ((MethodSink.finish inner).map fun inner => ⟨label, inner, handed⟩).logging
        (.ended label handed)

theorem outcome_accept (instruction : Instruction) (tracer : Tracer σ) :
    (accept instruction tracer).outcome = (MethodSink.accept instruction tracer.inner).outcome :=
  rfl

theorem inner_accept (instruction : Instruction) (tracer : Tracer σ) :
    (accept instruction tracer).sink.inner = (MethodSink.accept instruction tracer.inner).sink :=
  rfl

end Tracer

end JvmCode
