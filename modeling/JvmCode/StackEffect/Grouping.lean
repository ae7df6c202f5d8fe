import JvmCode.StackEffect.Words
/-!
# Grouping aggregations

A list of effects can be aggregated in many ways: two neighbours at a time, in any order,
with effects of doing nothing put in anywhere. A `Grouping` is one such way. All of them
come down to the `total` of the list: the sum of the impacts, and the highest of the peaks,
each shifted by the impacts before it.

## Main results

* `sum_eq_total` — aggregating from the left gives the total.
-/

namespace JvmCode.StackEffect

/-- The sum of the impacts. -/
def totalImpact : List StackEffect → Int
  | [] => 0
  | effect :: effects => effect.impact + totalImpact effects

/-- The highest peak, from this height on; the height itself is not counted. -/
def highestPeak (height : Int) : List StackEffect → Int
  | [] => 0
  | effect :: effects =>
    max (height + effect.maximal) (highestPeak (height + effect.impact) effects)

/-- The effect of a list as a whole. -/
def total (effects : List StackEffect) : StackEffect :=
  ⟨totalImpact effects, (highestPeak 0 effects).toNat⟩

/-- A way to aggregate effects. -/
inductive Grouping
  | nothing
  | single (effect : StackEffect)
  | pair (first second : Grouping)

namespace Grouping

/-- The effects that are aggregated, in order. -/
def effects : Grouping → List StackEffect
  | nothing => []
  | single effect => [effect]
  | pair first second => first.effects ++ second.effects

/-- Aggregates in machine words. -/
def evaluate : Grouping → Except WordFault StackEffect
  | nothing => .ok .none
  | single effect => .ok effect
  | pair first second => do
    let first ← first.evaluate
    let second ← second.evaluate
    aggregateWords first second

end Grouping

theorem highestPeak_nonneg (height : Int) (effects : List StackEffect) :
    0 ≤ highestPeak height effects := by
  induction effects generalizing height with
  | nil => exact Int.le_refl 0
  | cons effect effects ih =>
    have := ih (height + effect.impact)
    rw [highestPeak]
    omega

theorem foldl_aggregate (start : StackEffect) (effects : List StackEffect) :
    effects.foldl aggregate start
      = ⟨start.impact + totalImpact effects,
          max start.maximal (highestPeak start.impact effects).toNat⟩ := by
  induction effects generalizing start with
  | nil => simp [totalImpact, highestPeak]
  | cons effect effects ih =>
    have := highestPeak_nonneg (start.impact + effect.impact) effects
    rw [List.foldl_cons, ih]
    simp only [aggregate, totalImpact, highestPeak, StackEffect.mk.injEq]
    omega

theorem sum_eq_total (effects : List StackEffect) : sum effects = total effects := by
  rw [sum, foldl_aggregate, total]
  simp [none]

end JvmCode.StackEffect
