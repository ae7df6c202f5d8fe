import JvmCode.StackEffect.Basic
/-!
# Stack effects in machine words

The operations on stack effects as a 64-bit machine does them: an impact is a signed and
a peak an unsigned word. Building an effect checks that its peak is not below its impact,
reading the peak as a signed word; aggregating fails when a sum leaves the signed range.

## Main results

* `ofWords_of_sound` — an effect whose peak is not below its impact can be built in words.
-/

namespace JvmCode.StackEffect

/-- Why an operation on effects has no answer in machine words. -/
inductive WordFault
  | peakBelowImpact (impact : Int) (maximal : Nat)
  | overflow
  deriving DecidableEq

/-- The fault in words. -/
def WordFault.message : WordFault → String
  | .peakBelowImpact impact maximal =>
    s!"maximal size {maximal} is below the size impact {impact}"
  | .overflow => "attempt to add with overflow"

/-- An unsigned word read as a signed one. -/
def signedWord (n : Nat) : Int := Int.bmod n 0x10000000000000000

/-- The sum of two signed words, if it is one. -/
def addWords (a b : Int) : Except WordFault Int :=
  if -0x8000000000000000 ≤ a + b ∧ a + b < 0x8000000000000000 then .ok (a + b) else .error .overflow

/-- The effect with this impact and peak, if the peak is not below the impact. -/
def ofWords (impact : Int) (maximal : Nat) : Except WordFault StackEffect :=
  if impact ≤ signedWord maximal then .ok ⟨impact, maximal⟩
  else .error (.peakBelowImpact impact maximal)

/-- The effect of the first piece of code and then the second, in machine words. -/
def aggregateWords (first second : StackEffect) : Except WordFault StackEffect :=
  match addWords first.impact (signedWord second.maximal) with
  | .error fault => .error fault
  | .ok shifted =>
    match addWords first.impact second.impact with
    | .error fault => .error fault
    | .ok impact => .ok ⟨impact, max first.maximal shifted.toNat⟩

/-- The effect of all the pieces of code in turn, in machine words. -/
def sumWords (effects : List StackEffect) : Except WordFault StackEffect :=
  effects.foldlM aggregateWords none

/-- The effect of all the pieces of code, combined from the last one backwards. -/
def sumWordsRight (effects : List StackEffect) : Except WordFault StackEffect :=
  effects.reverse.foldlM (fun later first => aggregateWords first later) none

theorem signedWord_of_lt {n : Nat} (h : n < 0x8000000000000000) : signedWord n = n := by
  unfold signedWord
  apply Int.bmod_eq_of_le
  · simp
  · simp
    omega

/-- An effect whose peak is a signed word passes the check. -/
theorem ofWords_of_sound {effect : StackEffect} (sound : effect.Sound)
    (h : effect.maximal < 0x8000000000000000) :
    ofWords effect.impact effect.maximal = .ok effect := by
  have below : effect.impact ≤ signedWord effect.maximal := by
    rw [signedWord_of_lt h]
    exact sound
  exact if_pos below

end JvmCode.StackEffect
