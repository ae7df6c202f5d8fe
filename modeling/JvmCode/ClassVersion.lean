import JvmCode.ToBytes
/-!
# Class file versions

A class file states the version of the format it is in, a major and a minor number.
Versions are ordered by the major number first; class files hold the minor one first.

## Main results

* `ClassVersion.lt_iff`, `ClassVersion.compare_eq_lt` — the order, and the comparison
  that decides it.
-/

namespace JvmCode

/-- Version of the class file format. -/
structure ClassVersion where
  major : UInt16
  minor : UInt16
  deriving DecidableEq, Hashable

namespace ClassVersion

/-- The first version that can load method types. -/
def java7 : ClassVersion := ⟨51, 0⟩

/-- The version targeted unless another one is asked for. -/
def java11 : ClassVersion := ⟨55, 0⟩

/-- Compares by the major number and, where that is equal, by the minor one. -/
def compare (a b : ClassVersion) : Ordering :=
  (Ord.compare a.major b.major).then (Ord.compare a.minor b.minor)

instance : Ord ClassVersion := ⟨compare⟩

instance : LT ClassVersion where
  lt a b := a.major < b.major ∨ a.major = b.major ∧ a.minor < b.minor

instance (a b : ClassVersion) : Decidable (a < b) :=
  inferInstanceAs (Decidable (_ ∨ _ ∧ _))

/-- The version in words. -/
def describe (version : ClassVersion) : String := s!"{version.major}.{version.minor}"

instance : ToBytes ClassVersion := ⟨fun version => toBytes version.minor ++ toBytes version.major⟩

theorem lt_iff {a b : ClassVersion} :
    a < b ↔ a.major < b.major ∨ a.major = b.major ∧ a.minor < b.minor := Iff.rfl

theorem compare_eq_lt {a b : ClassVersion} : compare a b = .lt ↔ a < b := by
  rw [lt_iff, compare, Ordering.then_eq_lt, Std.compare_eq_lt, Std.compare_eq_iff_eq,
    Std.compare_eq_lt]

end ClassVersion

end JvmCode
