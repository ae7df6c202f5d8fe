import JvmCode.StackEffect.Grouping
import Mathlib
/-!
# Any grouping gives the total

Aggregation of effects that end no higher than their peak (`Sound`) is associative with the effect
of doing nothing as its unit, so in unbounded numbers a list has one total, however it is grouped.
In machine words every aggregation makes two sums, and which sums are made depends on the grouping:
one grouping of a list can go through where another one overflows (`Grouping.Overflows`). But what
goes through is the total, because peaks stay signed words all the way.

## Main results

* `sum_append`, `sound_sum`: lists of effects, cut in two.
* `Grouping.evaluate_cases`: a grouping overflows or gives the total, by induction on the grouping.
* `Grouping.evaluate_fromLeft`, `Grouping.evaluate_fromRight`: the folds are groupings.
* `grouping_irrelevant`: all groupings of a list.
-/

namespace JvmCode.StackEffect

/-! ## Lists of effects -/

section Lists

variable {start effect : StackEffect} {effects more : List StackEffect}

/-- What is aggregated after a start can be aggregated on its own first. -/
theorem foldl_aggregate_of_sound (isSound : start.Sound)
    (sound : ∀ effect ∈ effects, effect.Sound) :
    effects.foldl aggregate start = start.aggregate (sum effects) := by
  induction effects generalizing start with
  | nil => exact (aggregate_none isSound).symm
  | cons effect effects ih =>
      obtain ⟨first, others⟩ := List.forall_mem_cons.mp sound
      rw [sum, List.foldl_cons, List.foldl_cons, none_aggregate, ih (sound_aggregate first) others,
        ih first others, aggregate_assoc]

theorem sum_cons (isSound : effect.Sound) (sound : ∀ effect ∈ effects, effect.Sound) :
    sum (effect :: effects) = effect.aggregate (sum effects) := by
  rw [sum, List.foldl_cons, none_aggregate]
  exact foldl_aggregate_of_sound isSound sound

theorem sound_sum (sound : ∀ effect ∈ effects, effect.Sound) : (sum effects).Sound := by
  induction effects with
  | nil => exact sound_none
  | cons effect effects ih =>
      obtain ⟨first, others⟩ := List.forall_mem_cons.mp sound
      rw [sum_cons first others]
      exact sound_aggregate (ih others)

theorem sum_append (sound : ∀ effect ∈ effects, effect.Sound)
    (soundMore : ∀ effect ∈ more, effect.Sound) :
    sum (effects ++ more) = (sum effects).aggregate (sum more) := by
  rw [sum, List.foldl_append]
  exact foldl_aggregate_of_sound (sound_sum sound) soundMore

end Lists

/-! ## The total in closed form -/

/-- How high each of the effects gets above the start of all of them. -/
def peaks (effects : List StackEffect) : List Int :=
  effects.mapIdx fun k effect => ((effects.take k).map impact).sum + effect.maximal

theorem totalImpact_eq (effects : List StackEffect) :
    totalImpact effects = (effects.map impact).sum := by
  induction effects with
  | nil => rfl
  | cons effect effects ih => rw [totalImpact, ih, List.map_cons, List.sum_cons]

/-- The peaks of an effect and others: those of the others lie on its impact. -/
theorem peaks_cons (effect : StackEffect) (effects : List StackEffect) :
    peaks (effect :: effects)
      = (effect.maximal : Int) :: (peaks effects).map (effect.impact + ·) := by
  rw [peaks, List.mapIdx_cons, List.cons.injEq]
  refine ⟨Int.zero_add _, List.ext_getElem (by simp [peaks]) ?_⟩
  intro k _ _
  simp [peaks, Int.add_assoc]

theorem highestPeak_eq (height : Int) (effects : List StackEffect) :
    highestPeak height effects = ((peaks effects).map (height + ·)).foldr max 0 := by
  induction effects generalizing height with
  | nil => rfl
  | cons effect effects ih =>
      rw [highestPeak, ih, peaks_cons, List.map_cons, List.foldr_cons, List.map_map]
      simp only [Function.comp_def, Int.add_assoc]

theorem maximal_total (effects : List StackEffect) :
    ((total effects).maximal : Int) = (peaks effects).foldr max 0 := by
  have nonneg := highestPeak_nonneg 0 effects
  rw [total, Int.toNat_of_nonneg nonneg, highestPeak_eq]
  simp

/-! ## Aggregating in words -/

/-- The number is a signed word of 64 bits. -/
def IsSignedWord (n : Int) : Prop := -0x8000000000000000 ≤ n ∧ n < 0x8000000000000000

instance (n : Int) : Decidable (IsSignedWord n) := inferInstanceAs (Decidable (_ ∧ _))

/-- The effect can be built in words, and its peak is the same read as a signed one. -/
structure InWords (effect : StackEffect) : Prop where
  built : ofWords effect.impact effect.maximal = .ok effect
  peak : effect.maximal < 0x8000000000000000

section Words

variable {first second : StackEffect}

theorem InWords.sound {effect : StackEffect} (h : effect.InWords) : effect.Sound := by
  have built := h.built
  unfold ofWords at built
  split at built
  · next isSound => rwa [signedWord_of_lt h.peak] at isSound
  · cases built

/-- Two sums are made, one of them for the peak, and each of them may overflow. -/
theorem aggregateWords_cases (first : StackEffect) (peak : second.maximal < 0x8000000000000000) :
    (¬ IsSignedWord (first.impact + second.maximal) ∨
        ¬ IsSignedWord (first.impact + second.impact)) ∧
      aggregateWords first second = .error .overflow ∨
    (IsSignedWord (first.impact + second.maximal) ∧
        IsSignedWord (first.impact + second.impact)) ∧
      aggregateWords first second = .ok (first.aggregate second) := by
  rw [aggregateWords, signedWord_of_lt peak]
  by_cases shifted : IsSignedWord (first.impact + second.maximal)
  · have isShifted : addWords first.impact second.maximal = .ok _ := if_pos shifted
    rw [isShifted]
    by_cases impact : IsSignedWord (first.impact + second.impact)
    · have isImpact : addWords first.impact second.impact = .ok _ := if_pos impact
      rw [isImpact]
      exact .inr ⟨⟨shifted, impact⟩, rfl⟩
    · have overflows : addWords first.impact second.impact = .error .overflow := if_neg impact
      rw [overflows]
      exact .inl ⟨.inr impact, rfl⟩
  · have overflows : addWords first.impact second.maximal = .error .overflow := if_neg shifted
    rw [overflows]
    exact .inl ⟨.inl shifted, rfl⟩

/-- A peak that is made of signed words is one. -/
theorem maximal_aggregate_lt (peak : first.maximal < 0x8000000000000000)
    (shifted : IsSignedWord (first.impact + second.maximal)) :
    (first.aggregate second).maximal < 0x8000000000000000 := by
  unfold IsSignedWord at shifted
  show max first.maximal (first.impact + second.maximal).toNat < _
  omega

end Words

/-! ## Groupings -/

namespace Grouping

/-- One of the sums that the grouping asks for is no signed word. -/
def Overflows : Grouping → Prop
  | nothing | single _ => False
  | pair first second =>
    first.Overflows ∨ second.Overflows ∨
      ¬ IsSignedWord ((total first.effects).impact + (total second.effects).maximal) ∨
      ¬ IsSignedWord ((total first.effects).impact + (total second.effects).impact)

instance decidableOverflows : (grouping : Grouping) → Decidable grouping.Overflows
  | nothing | single _ => instDecidableFalse
  | pair first second =>
    have := decidableOverflows first
    have := decidableOverflows second
    inferInstanceAs (Decidable (_ ∨ _ ∨ _ ∨ _))

/-- A grouping of effects that can be built in words overflows, or gives the total. -/
theorem evaluate_cases (grouping : Grouping)
    (inWords : ∀ effect ∈ grouping.effects, effect.InWords) :
    grouping.Overflows ∧ grouping.evaluate = .error .overflow ∨
    ¬ grouping.Overflows ∧ grouping.evaluate = .ok (total grouping.effects) ∧
      (total grouping.effects).maximal < 0x8000000000000000 := by
  induction grouping with
  | nothing => exact .inr ⟨not_false, rfl, by decide⟩
  | single effect =>
      have alone : total [effect] = effect := by
        rw [← sum_eq_total]
        exact none_aggregate effect
      have peak := (inWords effect List.mem_cons_self).peak
      rw [effects, alone]
      exact .inr ⟨not_false, rfl, peak⟩
  | pair first second ihFirst ihSecond =>
      obtain ⟨inFirst, inSecond⟩ := List.forall_mem_append.mp inWords
      have whole : total (pair first second).effects
          = (total first.effects).aggregate (total second.effects) := by
        rw [effects, ← sum_eq_total, ← sum_eq_total, ← sum_eq_total]
        exact sum_append (fun effect member => (inFirst effect member).sound)
          fun effect member => (inSecond effect member).sound
      rcases ihFirst inFirst with ⟨overflows, run⟩ | ⟨fits, run, peak⟩
      · refine .inl ⟨.inl overflows, ?_⟩
        rw [evaluate, run]
        rfl
      rcases ihSecond inSecond with ⟨overflows, runSecond⟩ | ⟨fitsSecond, runSecond, peakSecond⟩
      · refine .inl ⟨.inr (.inl overflows), ?_⟩
        rw [evaluate, run, runSecond]
        rfl
      have last : (pair first second).evaluate
          = aggregateWords (total first.effects) (total second.effects) := by
        rw [evaluate, run, runSecond]
        rfl
      rw [last, whole]
      rcases aggregateWords_cases (total first.effects) peakSecond with
        ⟨overflows, failed⟩ | ⟨⟨shifted, impact⟩, answered⟩
      · exact .inl ⟨.inr (.inr overflows), failed⟩
      · refine .inr ⟨?_, answered, maximal_aggregate_lt peak shifted⟩
        rintro (overflows | overflows | overflows | overflows)
        · exact fits overflows
        · exact fitsSecond overflows
        · exact overflows shifted
        · exact overflows impact

/-! ### Folds -/

/-- Each effect is put to all those before it. -/
def fromLeft (effects : List StackEffect) : Grouping :=
  effects.foldl (fun before effect => pair before (single effect)) nothing

/-- Each effect is put to all those after it. -/
def fromRight (effects : List StackEffect) : Grouping :=
  effects.foldr (fun effect after => pair (single effect) after) nothing

theorem effects_fromLeft (effects : List StackEffect) : (fromLeft effects).effects = effects := by
  have grown : ∀ before : Grouping,
      (effects.foldl (fun before effect => pair before (single effect)) before).effects
        = before.effects ++ effects := by
    induction effects with
    | nil => exact fun before => (List.append_nil _).symm
    | cons effect effects ih =>
        intro before
        rw [List.foldl_cons, ih, Grouping.effects, List.append_assoc]
        rfl
  exact grown nothing

theorem effects_fromRight (effects : List StackEffect) :
    (fromRight effects).effects = effects := by
  induction effects with
  | nil => rfl
  | cons effect effects ih =>
      show [effect] ++ (fromRight effects).effects = effect :: effects
      rw [ih, List.singleton_append]

theorem evaluate_fromLeft (effects : List StackEffect) :
    (fromLeft effects).evaluate = sumWords effects := by
  have grown : ∀ before : Grouping,
      (effects.foldl (fun before effect => pair before (single effect)) before).evaluate
        = before.evaluate >>= fun start => effects.foldlM aggregateWords start := by
    induction effects with
    | nil => exact fun before => (bind_pure _).symm
    | cons effect effects ih =>
        intro before
        rw [List.foldl_cons, ih, evaluate]
        cases before.evaluate <;> rfl
  exact grown nothing

theorem evaluate_fromRight (effects : List StackEffect) :
    (fromRight effects).evaluate = sumWordsRight effects := by
  rw [sumWordsRight, List.foldlM_reverse]
  induction effects with
  | nil => rfl
  | cons effect effects ih =>
      rw [List.foldrM_cons, ← ih]
      rfl

end Grouping

/-- **Grouping does not matter.** Take any effects that can be built in words, and whose peaks are
signed words. However they are grouped, and wherever effects of doing nothing are put in between,
aggregating them in words overflows, or else gives their total; it overflows just if one of the sums
that the grouping asks for is no signed word. The impact of the total is the sum of the impacts. Its
peak is the highest of the peaks, each of them on top of the impacts before it, or zero, and the
total ends no higher than that. The folds from the left and from the right are two of the groupings,
so they overflow just if these do. And all groupings that answer at all agree. -/
theorem grouping_irrelevant (effects : List StackEffect)
    (inWords : ∀ effect ∈ effects, effect.InWords) :
    let whole := total effects
    let left := Grouping.fromLeft effects
    let right := Grouping.fromRight effects
    whole.impact = (effects.map impact).sum ∧
    (whole.maximal : Int) = (peaks effects).foldr max 0 ∧
    max 0 whole.impact ≤ whole.maximal ∧
    (∀ grouping : Grouping, grouping.effects = effects →
      grouping.Overflows ∧ grouping.evaluate = .error .overflow ∨
        ¬ grouping.Overflows ∧ grouping.evaluate = .ok whole) ∧
    (left.effects = effects ∧ sumWords effects = left.evaluate ∧
      (left.Overflows ∧ sumWords effects = .error .overflow ∨
        ¬ left.Overflows ∧ sumWords effects = .ok whole)) ∧
    (right.effects = effects ∧ sumWordsRight effects = right.evaluate ∧
      (right.Overflows ∧ sumWordsRight effects = .error .overflow ∨
        ¬ right.Overflows ∧ sumWordsRight effects = .ok whole)) ∧
    (∀ (one other : Grouping) (a b : StackEffect),
      one.effects = effects → other.effects = effects →
      one.evaluate = .ok a → other.evaluate = .ok b → a = b) := by
  intro whole left right
  have cases : ∀ grouping : Grouping, grouping.effects = effects →
      grouping.Overflows ∧ grouping.evaluate = .error .overflow ∨
        ¬ grouping.Overflows ∧ grouping.evaluate = .ok whole := by
    rintro grouping rfl
    rcases grouping.evaluate_cases inWords with overflows | ⟨fits, answered, _⟩
    · exact .inl overflows
    · exact .inr ⟨fits, answered⟩
  have answers : ∀ (grouping : Grouping) (answer : StackEffect), grouping.effects = effects →
      grouping.evaluate = .ok answer → answer = whole := by
    intro grouping answer isGrouping gave
    rcases cases grouping isGrouping with ⟨_, failed⟩ | ⟨_, answered⟩
    · cases gave.symm.trans failed
    · exact Except.ok.inj (gave.symm.trans answered)
  have sound : whole.Sound := by
    show (total effects).Sound
    rw [← sum_eq_total]
    exact sound_sum fun effect member => (inWords effect member).sound
  have isLeft : left.effects = effects := Grouping.effects_fromLeft effects
  have isRight : right.effects = effects := Grouping.effects_fromRight effects
  have leftRun : sumWords effects = left.evaluate := (Grouping.evaluate_fromLeft effects).symm
  have rightRun : sumWordsRight effects = right.evaluate :=
    (Grouping.evaluate_fromRight effects).symm
  refine ⟨totalImpact_eq effects, maximal_total effects, ?_, cases, ⟨isLeft, leftRun, ?_⟩,
    ⟨isRight, rightRun, ?_⟩, ?_⟩
  · exact Int.max_le.mpr ⟨Int.natCast_nonneg _, sound⟩
  · rw [leftRun]
    exact cases left isLeft
  · rw [rightRun]
    exact cases right isRight
  · intro one other a b isOne isOther gaveOne gaveOther
    exact (answers one a isOne gaveOne).trans (answers other b isOther gaveOther).symm

/-- Impacts that reach below the least signed word when they are summed up from the left, but not
from the right; and effects that have a total either way. -/
theorem grouping_irrelevant_deep :
    let deepest : StackEffect := ⟨-0x8000000000000000, 0⟩
    let effects := [deepest, ⟨-1, 0⟩, ⟨1, 1⟩]
    let grouping : Grouping :=
      .pair (.single deepest) (.pair (.pair (.single ⟨-1, 0⟩) .nothing) (.single ⟨1, 1⟩))
    let shallow : List StackEffect := [⟨-1, 2⟩, ⟨3, 5⟩, ⟨-4, 0⟩]
    ((∀ effect ∈ effects, effect.InWords) ∧ sumWords effects = .error .overflow ∧
      sumWordsRight effects = .ok deepest ∧ grouping.effects = effects ∧
      grouping.evaluate = .ok deepest) ∧
    (∀ effect ∈ shallow, effect.InWords) ∧ sumWords shallow = .ok ⟨-2, 4⟩ ∧
      sumWordsRight shallow = .ok ⟨-2, 4⟩ := by
  intro deepest effects grouping shallow
  have inWords : ∀ effect ∈ effects, effect.InWords := by
    intro effect member
    simp only [effects, deepest, List.mem_cons, List.not_mem_nil, or_false] at member
    rcases member with rfl | rfl | rfl <;>
      exact ⟨ofWords_of_sound (by decide) (by decide), by decide⟩
  have shallowInWords : ∀ effect ∈ shallow, effect.InWords := by
    intro effect member
    simp only [shallow, List.mem_cons, List.not_mem_nil, or_false] at member
    rcases member with rfl | rfl | rfl <;>
      exact ⟨ofWords_of_sound (by decide) (by decide), by decide⟩
  obtain ⟨_, _, _, cases, ⟨_, _, fromLeft⟩, ⟨_, _, fromRight⟩, _⟩ :=
    grouping_irrelevant effects inWords
  obtain ⟨_, _, _, _, ⟨_, _, shallowLeft⟩, ⟨_, _, shallowRight⟩, _⟩ :=
    grouping_irrelevant shallow shallowInWords
  have overflowsLeft : (Grouping.fromLeft effects).Overflows := by decide
  have fitsRight : ¬ (Grouping.fromRight effects).Overflows := by decide
  have fitsBetween : ¬ grouping.Overflows := by decide
  have shallowFitsLeft : ¬ (Grouping.fromLeft shallow).Overflows := by decide
  have shallowFitsRight : ¬ (Grouping.fromRight shallow).Overflows := by decide
  refine ⟨⟨inWords, ?_, ?_, rfl, ?_⟩, shallowInWords, ?_, ?_⟩
  · exact (fromLeft.resolve_right fun answered => answered.1 overflowsLeft).2
  · exact (fromRight.resolve_left fun overflows => fitsRight overflows.1).2
  · exact ((cases grouping rfl).resolve_left fun overflows => fitsBetween overflows.1).2
  · exact (shallowLeft.resolve_left fun overflows => shallowFitsLeft overflows.1).2
  · exact (shallowRight.resolve_left fun overflows => shallowFitsRight overflows.1).2

end JvmCode.StackEffect
