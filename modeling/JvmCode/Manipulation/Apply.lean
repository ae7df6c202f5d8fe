import JvmCode.Manipulation.Basic
import JvmCode.Sink.Visit
/-!
# Applying manipulations

Applying a manipulation hands its instructions to a sink, in program order, and answers
the effect they have on the stack. An invalid compound fails before any of its parts has
handed over anything; otherwise the first failure ends the emission and is the answer.

Emission threads the state of the sink and the log through (`Emission`), and keeps both
when it fails.

## Main results

* `applyAll_nil`, `applyAll_cons` — how a sequence is applied, part by part.
* `apply_compound_of_invalid` — an invalid compound does not touch the sink.
-/

namespace JvmCode

/-! ## Emission -/

/-- The sink that is emitted into, and everything logged so far. -/
structure Emitting (σ : Type) where
  sink : σ
  log : Array LogRecord

/-- Emission into a sink: it answers a value or an error, and keeps the sink either way. -/
abbrev Emission (σ α : Type) := EStateM EmitError (Emitting σ) α

namespace Emission

variable {σ : Type}

/-- Adds a record to the log. -/
def log (record : LogRecord) : Emission σ Unit := fun state =>
  .ok () { state with log := state.log.push record }

/-- Hands something to the sink and takes over its reply. -/
def hand [MethodSink σ] (visit : Visit) : Emission σ Unit
  | ⟨sink, log⟩ =>
    match visit.hand sink with
    | ⟨sink, .ok (), logged⟩ => .ok () ⟨sink, log.append logged.toArray⟩
    | ⟨sink, .error error, logged⟩ => .error error ⟨sink, log.append logged.toArray⟩

end Emission

/-! ## Primitives -/

namespace Primitive

variable {σ : Type} [MethodSink σ]

/-- Hands over what a primitive delivers. -/
def Delivery.hand : Delivery → Emission σ Unit
  | nothing => pure ()
  | instruction delivered => Emission.hand (.instruction delivered)
  | call delivered => Emission.hand (.call delivered)

/-- Hands over the instruction of a primitive, if it has one. -/
def apply (target : TargetClass) (primitive : Primitive) : Emission σ StackEffect :=
  match primitive.delivery target with
  | .error error => throw error
  | .ok delivery => do
    delivery.hand
    return primitive.effect

end Primitive

/-! ## Trees -/

namespace Manipulation

variable {σ : Type} [MethodSink σ]

mutual

/-- Hands over the instructions of a manipulation. -/
def apply (target : TargetClass) : Manipulation → Emission σ StackEffect
  | step primitive => primitive.apply target
  | compound parts => do
    match parts.find? (fun part => !part.isValid) with
    | some invalid =>
      Emission.log (.refused invalid)
      throw .illegalManipulation
    | none => applyAll target .none parts

/-- Hands over the instructions of the parts in turn; `total` is the effect of those before. -/
def applyAll (target : TargetClass) (total : StackEffect) :
    List Manipulation → Emission σ StackEffect
  | [] => pure total
  | part :: parts => do
    let effect ← apply target part
    Emission.log (.applied part effect)
    applyAll target (total.aggregate effect) parts

end

theorem applyAll_nil (target : TargetClass) (total : StackEffect) :
    applyAll (σ := σ) target total [] = pure total := by
  simp [applyAll]

theorem applyAll_cons (target : TargetClass) (total : StackEffect) (part : Manipulation)
    (parts : List Manipulation) :
    applyAll (σ := σ) target total (part :: parts) = (do
      let effect ← apply target part
      Emission.log (.applied part effect)
      applyAll target (total.aggregate effect) parts) := by
  simp [applyAll]

theorem apply_compound_of_invalid {target : TargetClass} {parts : List Manipulation}
    (h : (compound parts).isValid = false) (state : Emitting σ) :
    ∃ record, apply target (compound parts) state
      = .error .illegalManipulation { state with log := state.log.push record } := by
  cases hfind : parts.find? (fun part => !part.isValid) with
  | none =>
    have valid : (compound parts).isValid = true := by
      rw [isValid_compound]
      intro part hpart
      simpa using List.find?_eq_none.1 hfind part hpart
    simp [valid] at h
  | some invalid =>
    refine ⟨.refused invalid, ?_⟩
    rw [apply, hfind]
    rfl

end Manipulation

end JvmCode
