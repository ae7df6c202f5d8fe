import JvmCode.Descriptor.Basic
import JvmCode.Flags.ClassFile
/-!
# Declared types and methods

What is known of a type before its class file is visited: its name and the methods it
declares. A declared method is found by its *key*, its name followed by its descriptor;
of several methods with one key the last one counts.

## Main results

* `DeclaredType.find?_eq_some` — a method that is found is declared and has the key.
* `DeclaredType.find?_eq_none_iff` — nothing is found for a key that no declared method has.
-/

namespace JvmCode

/-- A method declared by a type. -/
structure DeclaredMethod where
  name : UnqualifiedName
  type : MethodType
  access : MethodAccess
  deriving DecidableEq

namespace DeclaredMethod

/-- The descriptor of the method. -/
def descriptor (method : DeclaredMethod) : String := method.type.descriptor

/-- The name followed by the descriptor. -/
def key (method : DeclaredMethod) : String := method.name.text ++ method.descriptor

end DeclaredMethod

/-- A type whose class file is visited. -/
structure DeclaredType where
  name : BinaryName
  methods : List DeclaredMethod
  deriving DecidableEq

namespace DeclaredType

/-- The last declared method with the key. -/
def find? (type : DeclaredType) (key : String) : Option DeclaredMethod :=
  type.methods.reverse.find? fun method => method.key == key

theorem find?_eq_some {type : DeclaredType} {key : String} {method : DeclaredMethod}
    (h : type.find? key = some method) : method ∈ type.methods ∧ method.key = key := by
  refine ⟨?_, ?_⟩
  · simpa using List.mem_of_find?_eq_some h
  · simpa using List.find?_some h

theorem find?_eq_none_iff {type : DeclaredType} {key : String} :
    type.find? key = none ↔ ∀ method ∈ type.methods, method.key ≠ key := by
  rw [find?, List.find?_eq_none]
  simp

theorem exists_find?_eq_some {type : DeclaredType} {key : String}
    (h : ∃ method ∈ type.methods, method.key = key) : ∃ method, type.find? key = some method := by
  obtain ⟨method, declared, same⟩ := h
  refine Option.ne_none_iff_exists'.mp fun notFound => ?_
  exact find?_eq_none_iff.mp notFound method declared same

end DeclaredType

end JvmCode
