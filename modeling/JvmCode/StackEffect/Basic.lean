import JvmCode.ValueSize
/-!
# Effects on the operand stack

A `StackEffect` sums up what a piece of straight-line code does to the height of the
operand stack, in slots: the net change (`impact`) and the highest point above the
height on entry (`maximal`). Effects are relative to the entry, so running one piece of
code after another combines them with `StackEffect.aggregate`, which shifts the peak of
the second by the impact of the first.

The numbers are unbounded here; `JvmCode.StackEffect.Words` holds the same operations in
64-bit machine words.

## Main results

* `aggregate_none`, `none_aggregate` — doing nothing is neutral.
* `aggregate_assoc` — grouping does not matter.
* `sound_aggregate` — aggregation keeps peaks at or above impacts (`Sound`).
-/

namespace JvmCode

/-- Net change of the stack height, and its peak above the height on entry. -/
structure StackEffect where
  impact : Int
  maximal : Nat
  deriving DecidableEq, Hashable

namespace StackEffect

/-- The effect of doing nothing. -/
def none : StackEffect := ⟨0, 0⟩

/-- The effect of putting slots on the stack. -/
def push (slots : Nat) : StackEffect := ⟨slots, slots⟩

/-- The effect of taking slots off the stack. -/
def pop (slots : Nat) : StackEffect := ⟨-(slots : Int), 0⟩

/-- The effect of the first piece of code and then the second. -/
def aggregate (first second : StackEffect) : StackEffect where
  impact := first.impact + second.impact
  maximal := max first.maximal (first.impact + second.maximal).toNat

/-- The effect of all the pieces of code in turn. -/
def sum (effects : List StackEffect) : StackEffect := effects.foldl aggregate none

/-- The effect in words; the impact always has its sign. -/
def describe (effect : StackEffect) : String :=
  let sign := if effect.impact < 0 then "" else "+"
  s!"impact {sign}{effect.impact}, maximal {effect.maximal}"

/-! ## Laws -/

/-- The peak is at least where the code ends. -/
def Sound (effect : StackEffect) : Prop := effect.impact ≤ effect.maximal

instance (effect : StackEffect) : Decidable effect.Sound :=
  inferInstanceAs (Decidable (_ ≤ _))

theorem sound_none : none.Sound := by decide

theorem sound_push (slots : Nat) : (push slots).Sound := by simp [Sound, push]

theorem sound_pop (slots : Nat) : (pop slots).Sound := by simp [Sound, pop]

theorem sound_aggregate {first second : StackEffect} (h : second.Sound) :
    (first.aggregate second).Sound := by
  simp only [Sound, aggregate] at *
  omega

theorem none_aggregate (effect : StackEffect) : none.aggregate effect = effect := by
  obtain ⟨impact, maximal⟩ := effect
  simp only [none, aggregate, StackEffect.mk.injEq]
  omega

theorem aggregate_none {effect : StackEffect} (h : effect.Sound) :
    effect.aggregate none = effect := by
  obtain ⟨impact, maximal⟩ := effect
  simp only [Sound] at h
  simp only [none, aggregate, StackEffect.mk.injEq]
  omega

theorem aggregate_assoc {a b c : StackEffect} :
    (a.aggregate b).aggregate c = a.aggregate (b.aggregate c) := by
  simp only [aggregate, StackEffect.mk.injEq]
  omega

end StackEffect

namespace ValueSize

/-- The effect of putting a value of the size on the stack. -/
def pushed (size : ValueSize) : StackEffect := .push size.slots

/-- The effect of taking a value of the size off the stack. -/
def popped (size : ValueSize) : StackEffect := .pop size.slots

end ValueSize

end JvmCode
