import JvmCode.Manipulation.Basic
/-!
# Leaves of manipulations

However its compounds are nested, a manipulation comes down to the primitives at its
leaves, from left to right.

## Main results

* `leaves_compound` — the leaves of a compound are those of its parts.
* `isValid_iff_leaves` — a manipulation is valid exactly when its leaves are.
-/

namespace JvmCode

/-- The primitive calls a method handle. -/
def Primitive.callsHandle : Primitive → Bool
  | invokeHandle _ => true
  | _ => false

namespace Manipulation

mutual

/-- The primitives at the leaves. -/
def leaves : Manipulation → List Primitive
  | step primitive => [primitive]
  | compound parts => allLeaves parts

/-- The primitives at the leaves of all the manipulations. -/
def allLeaves : List Manipulation → List Primitive
  | [] => []
  | part :: parts => part.leaves ++ allLeaves parts

end

/-- The leaves as one compound. -/
def flatten (manipulation : Manipulation) : Manipulation :=
  compound (manipulation.leaves.map step)

/-- How many method handles are called. -/
def handleCalls (manipulation : Manipulation) : Nat :=
  manipulation.leaves.countP Primitive.callsHandle

theorem leaves_step (primitive : Primitive) : (step primitive).leaves = [primitive] := by
  rw [leaves]

theorem allLeaves_eq_flatMap (parts : List Manipulation) :
    allLeaves parts = parts.flatMap leaves := by
  induction parts with
  | nil => rw [allLeaves, List.flatMap_nil]
  | cons part parts ih => rw [allLeaves, List.flatMap_cons, ih]

theorem leaves_compound (parts : List Manipulation) :
    (compound parts).leaves = parts.flatMap leaves := by
  rw [leaves, allLeaves_eq_flatMap]

mutual

theorem isValid_iff_leaves (manipulation : Manipulation) :
    manipulation.isValid = true ↔ ∀ leaf ∈ manipulation.leaves, leaf.isValid = true := by
  cases manipulation with
  | step primitive => simp [isValid, leaves]
  | compound parts =>
    rw [isValid, leaves]
    exact allValid_iff_leaves parts

theorem allValid_iff_leaves (parts : List Manipulation) :
    allValid parts = true ↔ ∀ leaf ∈ allLeaves parts, leaf.isValid = true := by
  cases parts with
  | nil => simp [allValid, allLeaves]
  | cons part parts =>
    rw [allValid, Bool.and_eq_true, isValid_iff_leaves part, allValid_iff_leaves parts, allLeaves,
      List.forall_mem_append]

end

theorem leaves_compound_map_step (primitives : List Primitive) :
    (compound (primitives.map step)).leaves = primitives := by
  rw [leaves_compound]
  induction primitives with
  | nil => rfl
  | cons leaf rest ih => rw [List.map_cons, List.flatMap_cons, leaves_step, ih]; rfl

theorem leaves_flatten (manipulation : Manipulation) :
    manipulation.flatten.leaves = manipulation.leaves :=
  leaves_compound_map_step manipulation.leaves

end Manipulation

end JvmCode
