import JvmCode.Instrument.Declared
/-!
# Method matchers

A matcher decides about declared methods, possibly with effects in a monad. The second
matcher of a conjunction or disjunction is only consulted if the first one leaves the
answer open.

## Main results

* `and_pure`, `or_pure` — without effects these are the Boolean operations.
-/

namespace JvmCode

/-- A predicate on declared methods, with effects in `m`. -/
def MethodMatcher (m : Type → Type) := DeclaredMethod → m Bool

namespace MethodMatcher

variable {m : Type → Type} [Monad m]

/-- Decides by a predicate without effects. -/
def ofPred (p : DeclaredMethod → Bool) : MethodMatcher m := fun method => pure (p method)

/-- Every method. -/
def any : MethodMatcher m := ofPred fun _ => true

/-- No method. -/
def none : MethodMatcher m := ofPred fun _ => false

/-- Methods with exactly this name. -/
def named (name : String) : MethodMatcher m := ofPred fun method => method.name.text == name

/-- Methods with exactly this descriptor. -/
def hasDescriptor (descriptor : String) : MethodMatcher m :=
  ofPred fun method => method.descriptor == descriptor

/-- Methods without a receiver. -/
def isStatic : MethodMatcher m := ofPred fun method => MethodAccess.isStatic method.access

/-- Methods without a visibility flag. -/
def isPackagePrivate : MethodMatcher m :=
  ofPred fun method => MethodAccess.isPackagePrivate method.access

/-- Methods that both matchers match. -/
def and (first second : MethodMatcher m) : MethodMatcher m := fun method => do
  if ← first method then second method else return false

/-- Methods that one of the matchers matches. -/
def or (first second : MethodMatcher m) : MethodMatcher m := fun method => do
  if ← first method then return true else second method

theorem and_pure [LawfulMonad m] (p q : DeclaredMethod → Bool) :
    and (m := m) (ofPred p) (ofPred q) = ofPred fun method => p method && q method := by
  funext method
  cases h : p method <;> simp [and, ofPred, h]

theorem or_pure [LawfulMonad m] (p q : DeclaredMethod → Bool) :
    or (m := m) (ofPred p) (ofPred q) = ofPred fun method => p method || q method := by
  funext method
  cases h : p method <;> simp [or, ofPred, h]

end MethodMatcher

end JvmCode
