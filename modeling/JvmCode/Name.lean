/-!
# Names in class files

A class file names members by *unqualified names* (`invokeExact`) and classes by
*binary names* (`java/lang/Object`). An unqualified name is a non-empty text without
`.`, `;`, `[` and `/`; a binary name is a non-empty sequence of unqualified names
separated by `/`.

Both types carry the proof that their text passed the check, so a name that exists
is a valid one. `UnqualifiedName.ofString` and `BinaryName.ofString` are the only
ways in for a text from outside.

## Main results

* `segments_ne_nil` — a text always has at least one segment.
* `UnqualifiedName.ofString_eq_ok_iff`, `BinaryName.ofString_eq_ok_iff` — a text is
  accepted exactly when the check finds nothing, and the name keeps it unchanged.
-/

namespace JvmCode

/-! ## The check -/

/-- What can be wrong with one segment of a name. -/
inductive NameProblem
  | empty
  | illegalCharacter
  deriving DecidableEq

/-- The problem in words, as it ends an error message. -/
def NameProblem.message : NameProblem → String
  | .empty => "is empty"
  | .illegalCharacter => "contains an illegal character"

/-- The characters that no unqualified name may hold. -/
def isReserved (c : Char) : Bool :=
  c == '.' || c == ';' || c == '[' || c == '/'

/-- The problem of one segment, if it has one. -/
def segmentProblem? (segment : List Char) : Option NameProblem :=
  if segment.isEmpty then some .empty
  else if segment.any isReserved then some .illegalCharacter
  else none

/-- The parts of a text between its slashes, in order; a text without a slash is one part. -/
def segments (text : List Char) : List (List Char) :=
  text.foldr
    (fun c parts =>
      if c = '/' then [] :: parts
      else match parts with
        | [] => [[c]]
        | part :: rest => (c :: part) :: rest)
    [[]]

@[simp] theorem segments_nil : segments [] = [[]] := rfl

theorem segments_slash (text : List Char) : segments ('/' :: text) = [] :: segments text := rfl

theorem segments_ne_nil (text : List Char) : segments text ≠ [] := by
  induction text with
  | nil => simp
  | cons c text _ =>
    simp only [segments, List.foldr_cons]
    split
    · simp
    · split <;> simp

/-- The problem of the first offending segment, if there is one. -/
def pathProblem? (text : List Char) : Option NameProblem :=
  if text.isEmpty then some .empty
  else (segments text).findSome? segmentProblem?

/-! ## The two kinds of names -/

/-- Name of a method or field, such as `invokeExact`. -/
structure UnqualifiedName where
  text : String
  valid : segmentProblem? text.toList = none
  deriving DecidableEq, Hashable

/-- Internal name of a class or interface, such as `java/lang/invoke/MethodHandle`. -/
structure BinaryName where
  text : String
  valid : pathProblem? text.toList = none
  deriving DecidableEq, Hashable

/-- A rejected name: the text, which kind of name it was meant to be, and its problem. -/
inductive NameFault
  | unqualified (text : String) (problem : NameProblem)
  | binary (text : String) (problem : NameProblem)
  deriving DecidableEq

/-- The fault in words. -/
def NameFault.message : NameFault → String
  | .unqualified text problem => s!"Unqualified name '{text}' {problem.message}"
  | .binary text problem => s!"Binary name '{text}' {problem.message}"

namespace UnqualifiedName

/-- The name with this text, if it is a valid one. -/
def ofString (text : String) : Except NameFault UnqualifiedName :=
  match h : segmentProblem? text.toList with
  | none => .ok ⟨text, h⟩
  | some problem => .error (.unqualified text problem)

/-- The method that a method handle is called through. -/
def invokeExact : UnqualifiedName := ⟨"invokeExact", by decide⟩

theorem ofString_eq_ok_iff {text : String} {name : UnqualifiedName} :
    ofString text = .ok name ↔ name.text = text := by
  constructor
  · intro h
    unfold ofString at h
    split at h
    · cases h; rfl
    · cases h
  · rintro rfl
    unfold ofString
    split
    · rfl
    · next problem h => exact absurd (h.symm.trans name.valid) (by simp)

end UnqualifiedName

namespace BinaryName

/-- The name with this text, if it is a valid one. -/
def ofString (text : String) : Except NameFault BinaryName :=
  match h : pathProblem? text.toList with
  | none => .ok ⟨text, h⟩
  | some problem => .error (.binary text problem)

/-- The root of the class hierarchy. -/
def object : BinaryName := ⟨"java/lang/Object", by decide⟩

/-- The class of method handles. -/
def methodHandle : BinaryName := ⟨"java/lang/invoke/MethodHandle", by decide⟩

theorem ofString_eq_ok_iff {text : String} {name : BinaryName} :
    ofString text = .ok name ↔ name.text = text := by
  constructor
  · intro h
    unfold ofString at h
    split at h
    · cases h; rfl
    · cases h
  · rintro rfl
    unfold ofString
    split
    · rfl
    · next problem h => exact absurd (h.symm.trans name.valid) (by simp)

end BinaryName

end JvmCode
