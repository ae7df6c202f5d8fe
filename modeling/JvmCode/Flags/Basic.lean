/-!
# Named bit sets

A set of flags is a word whose bits have names. A `FlagTable` declares the names, in
order, with the bits each stands for; a name may stand for several bits. `Flags` over a
table holds only declared bits: `ofBits` drops the others and `ofBits?` refuses them.

## Main results

* `Flags.ofBits?_eq_some_iff` — a word is accepted exactly when it holds no other bits.
* `Flags.contains_union_left`, `Flags.contains_union_right` — a union holds both sides.
-/

namespace JvmCode

/-- The declared flags of a kind of word, in order, each with its bits. -/
structure FlagTable where
  width : Nat
  declared : List (String × BitVec width)

/-- All bits that some declared flag stands for. -/
def FlagTable.mask (table : FlagTable) : BitVec table.width :=
  table.declared.foldl (fun mask flag => mask ||| flag.2) 0#_

/-- A set of the flags a table declares. -/
structure Flags (table : FlagTable) where
  bits : BitVec table.width
  deriving DecidableEq

namespace Flags

variable {table : FlagTable}

/-- The declared flags among the bits of a word. -/
def ofBits (bits : BitVec table.width) : Flags table := ⟨bits &&& table.mask⟩

/-- The flags with exactly these bits, if all of them are declared. -/
def ofBits? (bits : BitVec table.width) : Option (Flags table) :=
  if bits &&& table.mask = bits then some ⟨bits⟩ else none

/-- No flags. -/
def empty : Flags table := ⟨0#_⟩

/-- The flags of either set. -/
def union (a b : Flags table) : Flags table := ⟨a.bits ||| b.bits⟩

instance : Union (Flags table) := ⟨union⟩

/-- All these bits are in the set. -/
def contains (flags : Flags table) (bits : BitVec table.width) : Bool :=
  flags.bits &&& bits == bits

/-- Some of these bits are in the set. -/
def intersects (flags : Flags table) (bits : BitVec table.width) : Bool :=
  flags.bits &&& bits != 0#_

/-- The names of the declared flags in the set, in their order. -/
def names (flags : Flags table) : List String :=
  (table.declared.filter fun flag => flags.contains flag.2).map Prod.fst

/-- The set in words. -/
def describe (flags : Flags table) : String :=
  match flags.names with
  | [] => "(empty)"
  | names => String.intercalate " | " names

theorem ofBits?_eq_some_iff {bits : BitVec table.width} {flags : Flags table} :
    ofBits? bits = some flags ↔ flags.bits = bits ∧ bits &&& table.mask = bits := by
  unfold ofBits?
  split
  · next known =>
    constructor
    · intro h
      cases h
      exact ⟨rfl, known⟩
    · intro h
      rw [← h.1]
  · next unknown =>
    constructor
    · intro h
      cases h
    · intro h
      exact absurd h.2 unknown

theorem contains_union_left (a b : Flags table) : (a ∪ b).contains a.bits = true := by
  simp only [contains, beq_iff_eq]
  ext i
  simp +contextual [Union.union, union]

theorem contains_union_right (a b : Flags table) : (a ∪ b).contains b.bits = true := by
  simp only [contains, beq_iff_eq]
  ext i
  simp +contextual [Union.union, union]

end Flags

end JvmCode
