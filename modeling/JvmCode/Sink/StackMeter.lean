import JvmCode.Instruction.Flow
import JvmCode.Sink.Basic
import JvmCode.StackEffect.Basic
/-!
# Measuring stack depth

A `StackMeter` forwards everything to another sink and accounts for the instructions that
sink accepts. Depths are in slots and relative to the start, so they can be negative when
code uses values that were there before.
-/

namespace JvmCode

/-- A sink with the depth of the stack and the highest depth so far. -/
structure StackMeter (σ : Type) where
  inner : σ
  depth : Int
  peak : Nat

namespace StackMeter

variable {σ : Type}

/-- A meter at its start. -/
def start (inner : σ) : StackMeter σ := ⟨inner, 0, 0⟩

/-- Net change and peak of everything accepted so far. -/
def observed (meter : StackMeter σ) : StackEffect := ⟨meter.depth, meter.peak⟩

/-- The depth after an instruction. -/
def depthAfter (depth : Int) (flow : SlotFlow) : Int := depth - flow.popped + flow.pushed

variable [MethodSink σ]

/-- Forwards an instruction whose flow is known, and accounts for it if it is accepted. -/
def accept (instruction : Instruction) : StackMeter σ → Reply (StackMeter σ)
  | ⟨inner, depth, peak⟩ =>
    match instruction.flow with
    | .error error => .refused ⟨inner, depth, peak⟩ error
    | .ok flow =>
      match MethodSink.accept instruction inner with
      | ⟨inner, .ok (), log⟩ =>
        let depth := depthAfter depth flow
        ⟨⟨inner, depth, max peak depth.toNat⟩, .ok (), log⟩
      | ⟨inner, .error error, log⟩ => ⟨⟨inner, depth, peak⟩, .error error, log⟩

instance : MethodSink (StackMeter σ) where
  accept := accept
  setLimits maxStack maxLocals
    | ⟨inner, depth, peak⟩ =>
      (MethodSink.setLimits maxStack maxLocals inner).map fun inner => ⟨inner, depth, peak⟩
  finish
    | ⟨inner, depth, peak⟩ => (MethodSink.finish inner).map fun inner => ⟨inner, depth, peak⟩

end StackMeter

end JvmCode
