import JvmCode.Proofs.ConstantPool.Contents
import JvmCode.Proofs.ConstantPool.Serialization
/-!
# How entries lie in a pool

An entry covers the index it is found at, and a `long` or `double` entry the next one as well.
Entries are listed with a running index that is kept in a 16-bit word. In a pool within its
limit it never wraps, so every entry starts where the one before it ends: the entries cover the
indices from the first one up to the count, each of them once.

Everything here is first said of constants with their indices (`indexed`), by induction on the
constants, and then of the pools that requests lead to.

## Main results

* `isChain_indexed`, `pairwise_indexed`: entries follow each other without gaps, in order.
* `exists_covers_iff`, `covers_unique`: every index in the range is covered, by one entry.
* `entries_tile`: the layout of every pool that requests lead to.
-/

namespace JvmCode.ConstantPool

/-- The number is one of the indices that the entry takes. -/
def Covers (entry : PoolIndex × Constant) (n : Nat) : Prop :=
  entry.1.val.toNat ≤ n ∧ n < entry.1.val.toNat + entry.2.width

/-- The second entry starts where the first one ends. -/
def Meets (first second : PoolIndex × Constant) : Prop :=
  second.1.val.toNat = first.1.val.toNat + first.2.width

section Indexed

variable {next : Nat} {constants : List Constant}

/-- An index is not cut off by its word if there is room for one more entry after it. -/
theorem toNat_index_of_cons {constant : Constant}
    (small : next + totalWidth (constant :: constants) ≤ 65536) :
    (UInt16.ofNat next).toNat = next := by
  have wide := constant.width_pos
  rw [totalWidth_cons] at small
  rw [UInt16.toNat_ofNat']
  omega

/-- Every entry starts where the one before it ends. -/
theorem isChain_indexed (small : next + totalWidth constants ≤ 65536) :
    (indexed next constants).IsChain Meets := by
  induction constants generalizing next with
  | nil => exact .nil
  | cons first rest ih =>
      have start := toNat_index_of_cons small
      rw [totalWidth_cons, ← Nat.add_assoc] at small
      have others := ih small
      cases rest with
      | nil => exact .singleton _
      | cons second rest =>
          have meets : (UInt16.ofNat (next + first.width)).toNat
              = (UInt16.ofNat next).toNat + first.width := by
            rw [toNat_index_of_cons small, start]
          exact .cons_cons meets others

/-- No entry reaches into one that is listed after it. -/
theorem pairwise_indexed (small : next + totalWidth constants ≤ 65536) :
    (indexed next constants).Pairwise fun a b =>
      a.1.val.toNat + a.2.width ≤ b.1.val.toNat := by
  induction constants generalizing next with
  | nil => exact .nil
  | cons first rest ih =>
      have start := toNat_index_of_cons small
      rw [totalWidth_cons, ← Nat.add_assoc] at small
      refine .cons ?_ (ih small)
      rintro ⟨index, constant⟩ later
      show (UInt16.ofNat next).toNat + first.width ≤ index.val.toNat
      rw [start]
      exact (bounds_of_mem_indexed small later).1

/-- The entries cover all the indices that they take together, and no others. -/
theorem exists_covers_iff (small : next + totalWidth constants ≤ 65536) (n : Nat) :
    (∃ entry ∈ indexed next constants, Covers entry n) ↔
      next ≤ n ∧ n < next + totalWidth constants := by
  induction constants generalizing next with
  | nil =>
      rw [totalWidth_nil]
      constructor
      · rintro ⟨_, none, _⟩
        cases none
      · omega
  | cons first rest ih =>
      have start := toNat_index_of_cons small
      have here : Covers (⟨UInt16.ofNat next⟩, first) n ↔ next ≤ n ∧ n < next + first.width := by
        rw [Covers, start]
      rw [totalWidth_cons, ← Nat.add_assoc] at small ⊢
      rw [indexed, List.exists_mem_cons_iff, here, ih small]
      omega

/-- No index is covered by two entries. -/
theorem covers_unique (small : next + totalWidth constants ≤ 65536) {n : Nat}
    {entry other : PoolIndex × Constant} (listed : entry ∈ indexed next constants)
    (alsoListed : other ∈ indexed next constants) (covers : Covers entry n)
    (alsoCovers : Covers other n) : entry = other := by
  induction constants generalizing next with
  | nil => cases listed
  | cons first rest ih =>
      have apart := (List.pairwise_cons.mp (pairwise_indexed small)).1
      rw [totalWidth_cons, ← Nat.add_assoc] at small
      unfold Covers at covers alsoCovers
      rw [indexed, List.mem_cons] at listed alsoListed
      rcases listed with rfl | later
      · rcases alsoListed with rfl | alsoLater
        · rfl
        · have := apart other alsoLater
          omega
      · rcases alsoListed with rfl | alsoLater
        · have := apart entry later
          omega
        · exact ih small later alsoLater

end Indexed

/-- **Entries tile the indices.** Take any pool that requests lead to, answered or refused. The
widths of its entries add up to less than the limit, and the count is one more than their sum.
The entries are listed in order with strictly increasing indices: the first one is 1, and each
of the others is that of the entry before it and the width of that entry, with nothing wrapped.
Together they cover the indices from 1 up to the count, each of them once. No constant is held
twice, and the table finds a constant at an index just if the constant is listed there. -/
theorem entries_tile (requests : List PoolRequest) :
    let pool := (resolveAll requests ∅).2
    1 + totalWidth pool.constants.toList ≤ 65535 ∧
    pool.count.toNat = 1 + totalWidth pool.constants.toList ∧
    pool.entries.toList.map Prod.snd = pool.constants.toList ∧
    (∀ first ∈ pool.entries.toList.head?, first.1.val = 1) ∧
    pool.entries.toList.IsChain Meets ∧
    pool.entries.toList.Pairwise (fun a b => a.1.val < b.1.val) ∧
    (∀ n, (∃ entry ∈ pool.entries, Covers entry n) ↔ 1 ≤ n ∧ n < pool.count.toNat) ∧
    (∀ n, ∀ entry ∈ pool.entries, ∀ other ∈ pool.entries,
      Covers entry n → Covers other n → entry = other) ∧
    pool.constants.toList.Nodup ∧
    (∀ constant index,
      pool.interned[constant]? = some index ↔ (index, constant) ∈ pool.entries) := by
  intro pool
  obtain ⟨contents, built, _⟩ := exists_built requests
  have consistent : pool.Consistent := built.consistent
  have countEq := consistent.count_eq
  have inLimit : 1 + totalWidth pool.constants.toList ≤ 65535 := by
    have bound : pool.slots < 65535 := consistent.slots_lt
    rw [consistent.slots_eq] at bound
    omega
  have small : 1 + totalWidth pool.constants.toList ≤ 65536 := Nat.le_succ_of_le inLimit
  have starts : ∀ first ∈ (indexed 1 pool.constants.toList).head?, first.1.val = 1 := by
    intro first isFirst
    cases list : pool.constants.toList with
    | nil =>
        rw [list] at isFirst
        cases isFirst
    | cons constant rest =>
        rw [list] at isFirst
        cases isFirst
        rfl
  have increasing : (indexed 1 pool.constants.toList).Pairwise fun a b => a.1.val < b.1.val := by
    refine (pairwise_indexed small).imp fun {a b} apart => ?_
    have wide := a.2.width_pos
    rw [UInt16.lt_iff_toNat_lt]
    omega
  simp only [← Array.mem_toList_iff, entries_eq_indexed]
  refine ⟨inLimit, countEq, map_snd_indexed 1 _, starts, isChain_indexed small, increasing, ?_, ?_,
    built.nodup_constants, ?_⟩
  · intro n
    rw [countEq]
    exact exists_covers_iff small n
  · intro n entry listed other alsoListed covers alsoCovers
    exact covers_unique small listed alsoListed covers alsoCovers
  · intro constant index
    rw [consistent.interned_iff, mem_entries_iff]

/-- Two `long`-sized entries and one between them. The second index is covered by the first entry
and found nowhere else. -/
theorem entries_tile_wide :
    let pool := (resolveAll [.long 42, .integer 42, .double .one] ∅).2
    pool.entries.toList = [(⟨1⟩, .long 42), (⟨3⟩, .integer 42), (⟨4⟩, .double .one)] ∧
      pool.count.toNat = 6 ∧ (∃ entry ∈ pool.entries, Covers entry 5) ∧
      (∀ entry ∈ pool.entries, Covers entry 2 → entry = (⟨1⟩, .long 42)) := by
  intro pool
  have constants : pool.constants.toList = [.long 42, .integer 42, .double .one] := by
    simp only [pool]
    cbv
  have entries : pool.entries.toList
      = [(⟨1⟩, .long 42), (⟨3⟩, .integer 42), (⟨4⟩, .double .one)] := by
    rw [entries_eq_indexed, constants]
    rfl
  have first : (⟨1⟩, .long 42) ∈ pool.entries := by
    rw [← Array.mem_toList_iff, entries]
    exact List.mem_cons_self
  obtain ⟨_, count, _, _, _, _, covered, unique, _, _⟩ :=
    entries_tile [.long 42, .integer 42, .double .one]
  have countIs : pool.count.toNat = 6 := by
    rw [count, constants]
    rfl
  refine ⟨entries, countIs, (covered 5).mpr ⟨by decide, ?_⟩, ?_⟩
  · rw [countIs]
    decide
  · intro entry listed covers
    exact unique 2 entry listed (⟨1⟩, .long 42) first covers ⟨by decide, by decide⟩

end JvmCode.ConstantPool
