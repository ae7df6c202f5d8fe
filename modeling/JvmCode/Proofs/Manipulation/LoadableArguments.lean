import JvmCode.Proofs.Manipulation.Arguments
/-!
# Which arguments can be loaded

An operand names one of 65536 local variables. Arguments in consecutive local variables can be
reached if all their slots are among these (`Addressable`), which is a matter of where the first of
them starts and of how many slots they take together. Loading them is refused for less: just if one
of them *starts* past the last local variable (`StartsAddressable`).

The two differ in one case. If the last argument takes two slots and starts in the last local
variable (`EndsHalfway`), it is loaded, though the second of its slots cannot be reached.

## Main results

* `addressable_iff`: arguments can be reached if the slots of all of them fit.
* `allValid_argumentLoads_iff`: where loading is refused, by induction along the loads.
* `isValid_allArguments`: when loading is accepted, and when that is right.
-/

namespace JvmCode

/-! ## Slots that can be reached -/

/-- Every argument starts in a local variable that an operand can name, when the first of them
starts in the given one. -/
def StartsAddressable (first : Nat) (types : List FieldType) : Prop :=
  ∀ k < types.length, first + slots (types.take k) ≤ 65535

/-- Every slot of every argument is a local variable that an operand can name, when the first of
them starts in the given one. -/
def Addressable (first : Nat) (types : List FieldType) : Prop :=
  ∀ k, ∀ inside : k < types.length, ∀ slot < types[k].width,
    first + slots (types.take k) + slot ≤ 65535

/-- The last argument takes two slots, and only the first of them is a local variable that an
operand can name. -/
def EndsHalfway (first : Nat) (types : List FieldType) : Prop :=
  ∃ before last, types = before ++ [last] ∧ last.width = 2 ∧ first + slots before = 65535

section Slots

variable {first : Nat} {types : List FieldType}

theorem slots_singleton (type : FieldType) : slots [type] = type.width := by
  rw [slots_cons, slots_nil, Nat.add_zero]

theorem slots_take_le (types : List FieldType) (k : Nat) : slots (types.take k) ≤ slots types := by
  rw [← slots_take_add_slots_drop types k]
  exact Nat.le_add_right _ _

/-- The last slot of all is the last one of the last argument. -/
theorem addressable_iff : Addressable first types ↔ types = [] ∨ first + slots types ≤ 65536 := by
  constructor
  · intro reached
    rcases List.eq_nil_or_concat types with none | ⟨before, last, isConcat⟩
    · exact .inl none
    · obtain rfl : types = before ++ [last] := isConcat.trans List.concat_eq_append
      have inside : before.length < (before ++ [last]).length := by simp
      have pos : 0 < last.width := last.width_pos
      have lastSlot := reached before.length inside (last.width - 1) (by simp; omega)
      rw [List.take_left] at lastSlot
      rw [slots_append, slots_singleton]
      exact .inr (by omega)
  · rintro (rfl | room) k inside slot isSlot
    · cases inside
    · have ends := slots_take_add_width_le inside
      omega

theorem startsAddressable_cons_iff {type : FieldType} :
    StartsAddressable first (type :: types) ↔
      first ≤ 65535 ∧ StartsAddressable (first + type.width) types := by
  constructor
  · intro starts
    refine ⟨starts 0 (Nat.succ_pos _), fun k inside => ?_⟩
    have next := starts (k + 1) (Nat.succ_lt_succ inside)
    rw [List.take_succ_cons, slots_cons] at next
    omega
  · rintro ⟨now, later⟩ k inside
    cases k with
    | zero => exact now
    | succ k =>
        have next := later k (Nat.lt_of_succ_lt_succ inside)
        rw [List.take_succ_cons, slots_cons]
        omega

/-- Arguments that all start in time have slots for all of them, or lack just the last one. -/
theorem startsAddressable_iff :
    StartsAddressable first types ↔
      (types = [] ∨ first + slots types ≤ 65536) ∨ EndsHalfway first types := by
  constructor
  · intro starts
    rcases List.eq_nil_or_concat types with none | ⟨before, last, isConcat⟩
    · exact .inl (.inl none)
    · obtain rfl : types = before ++ [last] := isConcat.trans List.concat_eq_append
      have inTime := starts before.length (by simp)
      have narrow : last.width ≤ 2 := last.width_le
      rw [List.take_left] at inTime
      by_cases room : first + slots (before ++ [last]) ≤ 65536
      · exact .inl (.inr room)
      · rw [slots_append, slots_singleton] at room
        exact .inr ⟨before, last, rfl, by omega, by omega⟩
  · rintro ((rfl | room) | ⟨before, last, rfl, -, halfway⟩) k inside
    · cases inside
    · have ends := slots_take_add_width_le inside
      have pos : 0 < types[k].width := types[k].width_pos
      omega
    · have early : k ≤ before.length := by simpa [Nat.lt_succ_iff] using inside
      rw [List.take_append_of_le_length early, ← halfway]
      exact Nat.add_le_add_left (slots_take_le before k) first

/-- Where the last slot is missing, the slots do not fit. -/
theorem EndsHalfway.not_room (halfway : EndsHalfway first types) :
    ¬ (types = [] ∨ first + slots types ≤ 65536) := by
  obtain ⟨before, last, rfl, wide, ends⟩ := halfway
  rintro (none | room)
  · exact List.append_ne_nil_of_right_ne_nil before (List.cons_ne_nil last []) none
  · rw [slots_append, slots_singleton] at room
    omega

end Slots

/-! ## The loads -/

namespace Manipulation

/-- The loads end with an illegal part where an argument starts past the last local variable. -/
theorem allValid_argumentLoads_iff {first : Nat} {types : List FieldType} :
    allValid (argumentLoads #[] first types) = true ↔ StartsAddressable first types := by
  induction types generalizing first with
  | nil => exact ⟨fun _ k inside => absurd inside (Nat.not_lt_zero k), fun _ => rfl⟩
  | cons type types ih =>
      rw [startsAddressable_cons_iff, ← ih, argumentLoads]
      by_cases inTime : first ≤ 65535
      · rw [if_pos inTime, argumentLoads_eq]
        simp [allValid, isValid, Primitive.isValid, inTime]
      · rw [if_neg inTime]
        simp [allValid, isValid, Primitive.isValid, inTime]

/-- **When arguments can be loaded.** All slots of the arguments can be reached just if there are no
arguments, or their slots end with the last local variable or before it. The loads are accepted just
if that holds, or if only the second slot of the last argument is missing. So they are accepted
rightly for all arguments but those that end halfway. -/
theorem isValid_allArguments (type : MethodType) (first : UInt16) :
    let accepted := (allArguments type first).isValid = true
    let reachable := Addressable first.toNat type.parameters
    let room := type.parameters = [] ∨ first.toNat + type.parameterSlots ≤ 65536
    (reachable ↔ room) ∧
    (accepted ↔ room ∨ EndsHalfway first.toNat type.parameters) ∧
    ((accepted ↔ reachable) ↔ ¬ EndsHalfway first.toNat type.parameters) := by
  intro accepted reachable room
  have isReachable : reachable ↔ room := addressable_iff
  have isAccepted : accepted ↔ room ∨ EndsHalfway first.toNat type.parameters :=
    allValid_argumentLoads_iff.trans startsAddressable_iff
  refine ⟨isReachable, isAccepted, ?_⟩
  rw [isReachable, isAccepted]
  constructor
  · exact fun rightly halfway => halfway.not_room (rightly.mp (.inr halfway))
  · intro notHalfway
    rw [or_iff_left notHalfway]

/-- A `long` that starts in the last local variable is loaded, though it has no room. -/
theorem isValid_allArguments_of_halfway :
    let type : MethodType := ⟨[.base .long], none⟩
    (allArguments type 65535).isValid = true ∧ ¬ Addressable 65535 type.parameters ∧
      ¬ (type.parameters = [] ∨ 65535 + type.parameterSlots ≤ 65536) := by
  have noRoom : ¬ ([FieldType.base .long] = [] ∨ 65535 + slots [.base .long] ≤ 65536) := by decide
  exact ⟨by decide, fun reached => noRoom (addressable_iff.mp reached), noRoom⟩

end Manipulation

end JvmCode
