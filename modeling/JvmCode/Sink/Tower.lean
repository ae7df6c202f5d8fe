import JvmCode.Sink.StackMeter
import JvmCode.Sink.Tracer
/-!
# Towers of sinks

Meters and tracers stacked on a base sink, in any order and to any height. The layers are
listed from the outermost one inwards; `Tower σ layers` is the type of the whole stack,
and it is a sink whenever the base is one.

## Main results

* `base_build` — building a tower keeps its base.
-/

namespace JvmCode

/-- The kinds of sinks that forward to another one. -/
inductive Layer
  | meter
  | tracer
  deriving DecidableEq

/-- The states of layers stacked on a base, outermost first. -/
def Tower (σ : Type) : List Layer → Type
  | [] => σ
  | .meter :: layers => StackMeter (Tower σ layers)
  | .tracer :: layers => Tracer (Tower σ layers)

namespace Tower

variable {σ : Type}

/-- A tower is a sink if its base is one. -/
@[reducible] def methodSink [MethodSink σ] : (layers : List Layer) → MethodSink (Tower σ layers)
  | [] => inferInstanceAs (MethodSink σ)
  | .meter :: layers =>
    have := methodSink layers
    inferInstanceAs (MethodSink (StackMeter (Tower σ layers)))
  | .tracer :: layers =>
    have := methodSink layers
    inferInstanceAs (MethodSink (Tracer (Tower σ layers)))

instance [MethodSink σ] (layers : List Layer) : MethodSink (Tower σ layers) := methodSink layers

/-- The sink at the bottom. -/
def base : (layers : List Layer) → Tower σ layers → σ
  | [], tower => tower
  | .meter :: layers, tower => base layers (StackMeter.inner tower)
  | .tracer :: layers, tower => base layers (Tracer.inner tower)

/-- What the meters in the tower have measured, outermost first. -/
def observed : (layers : List Layer) → Tower σ layers → List StackEffect
  | [], _ => []
  | .meter :: layers, tower =>
    StackMeter.observed tower :: observed layers (StackMeter.inner tower)
  | .tracer :: layers, tower => observed layers (Tracer.inner tower)

/-- A tower at its start. Every layer comes with a label, which tracers use. -/
def build (inner : σ) : (layers : List (Layer × String)) → Tower σ (layers.map Prod.fst)
  | [] => inner
  | (.meter, _) :: layers => StackMeter.start (build inner layers)
  | (.tracer, label) :: layers => Tracer.start label (build inner layers)

theorem base_build (inner : σ) (layers : List (Layer × String)) :
    base (layers.map Prod.fst) (build inner layers) = inner := by
  induction layers with
  | nil => rfl
  | cons layer layers ih =>
    obtain ⟨kind, label⟩ := layer
    cases kind <;> exact ih

end Tower

end JvmCode
