import JvmCode.ConstantPool.Reader
import JvmCode.Proofs.ConstantPool.Interning
import Mathlib.Data.List.Permutation
/-!
# Pools are read back from their bytes

The byte form of a pool does not say where its entries are: the index of an entry is one more
than the widths of those before it, and the count at the front says where the list ends. So
reading goes along the entries with a running index (`readEntries_append`), and it ends at the
right place because the count is the one that the widths add up to, with nothing cut off by
its two bytes. The same holds of the length in front of every text.

## Main results

* `readEntries_append`: entries are read back with their indices, whatever comes after them.
* `Consistent.read_append`: the same for pools.
* `bytes_faithful`: the bytes of a pool that requests lead to stand for its entries.
-/

namespace JvmCode.ConstantPool

/-- Entries are read back with their indices, up to the index after the last one. -/
theorem readEntries_append {constants : List Constant}
    (fits : ∀ constant ∈ constants, constant.TextFits) (next : Nat) (rest : List UInt8) :
    readEntries (next + totalWidth constants) next (constants.flatMap toBytes ++ rest)
      = some (indexed next constants, rest) := by
  induction constants generalizing next with
  | nil =>
      rw [readEntries, totalWidth_nil, Nat.add_zero, if_neg (Nat.lt_irrefl _), if_pos rfl]
      rfl
  | cons constant constants ih =>
      have more : next < next + totalWidth (constant :: constants) := by
        have wide := constant.width_pos
        rw [totalWidth_cons]
        omega
      have first := Constant.read_append (fits constant List.mem_cons_self)
        (constants.flatMap toBytes ++ rest)
      have others := ih (fun other member => fits other (List.mem_cons_of_mem _ member))
        (next + constant.width)
      rw [Nat.add_assoc] at others
      rw [readEntries, if_pos more, List.flatMap_cons, List.append_assoc, first]
      simp only [totalWidth_cons, others]
      rfl

namespace Consistent

variable {pool other : ConstantPool}

/-- The count says where the entries end. -/
theorem count_eq (h : pool.Consistent) :
    pool.count.toNat = 1 + totalWidth pool.constants.toList := by
  rw [h.count_toNat, h.slots_eq, Nat.add_comm]

/-- A pool is read back as its entries, whatever comes after it. -/
theorem read_append (h : pool.Consistent) (rest : List UInt8) :
    read (toBytes pool ++ rest) = some (pool.entries.toList, rest) := by
  have bytes : toBytes pool ++ rest
      = toBytes pool.count ++ (pool.constants.toList.flatMap toBytes ++ rest) :=
    List.append_assoc _ _ _
  have number := ByteReader.number_bigEndian_of_lt 2 pool.count.toNat_lt
    (pool.constants.toList.flatMap toBytes ++ rest)
  rw [read, bytes, entries_eq_indexed]
  refine (ByteReader.bind_of_eq number _).trans ?_
  rw [h.count_eq]
  exact readEntries_append h.textFits 1 rest

/-- The bytes of a pool are those of no other list of entries. -/
theorem toBytes_inj (h : pool.Consistent) (h' : other.Consistent) :
    toBytes pool = toBytes other ↔ pool.entries = other.entries := by
  constructor
  · intro same
    have ours := h.read_append []
    rw [same, h'.read_append []] at ours
    exact Array.toList_inj.mp (Prod.mk.inj (Option.some.inj ours)).1.symm
  · intro same
    have constants : pool.constants.toList = other.constants.toList := by
      rw [← map_snd_indexed 1 pool.constants.toList, ← entries_eq_indexed, same,
        entries_eq_indexed, map_snd_indexed]
    have count : pool.count = other.count := by
      rw [count, count, h.slots_eq, h'.slots_eq, constants]
    show toBytes pool.count ++ pool.constants.toList.flatMap toBytes = _
    rw [count, constants]
    rfl

end Consistent

/-- **Bytes of pools are faithful.** Take any pool that requests lead to, answered or refused.
Reading its bytes by the format uses them all up and gives its entries at their indices. The
count is not cut off by its two bytes, nor is the length of any text by its own, and two such
pools have the same bytes just if they have the same entries. -/
theorem bytes_faithful (requests : List PoolRequest) :
    let pool := (resolveAll requests ∅).2
    read (toBytes pool) = some (pool.entries.toList, []) ∧
    pool.count.toNat = 1 + totalWidth pool.constants.toList ∧
    (∀ text, Constant.utf8 text ∈ pool.constants.toList →
      (UInt16.ofNat (ModifiedUtf8.encode text).length).toNat
        = (ModifiedUtf8.encode text).length) ∧
    (∀ others, let other := (resolveAll others ∅).2
      toBytes pool = toBytes other ↔ pool.entries = other.entries) := by
  intro pool
  have consistent : pool.Consistent := consistent_resolveAll requests
  have whole := consistent.read_append []
  rw [List.append_nil] at whole
  refine ⟨whole, consistent.count_eq, ?_, ?_⟩
  · intro text member
    have short : (ModifiedUtf8.encode text).length ≤ 65535 := consistent.textFits _ member
    rw [UInt16.toNat_ofNat']
    omega
  · intro others
    exact consistent.toBytes_inj (consistent_resolveAll others)

/-- A text, a string that refers to it, and a `double` that takes the last two indices. -/
theorem bytes_faithful_double :
    let bytes : List UInt8 :=
      [0, 5, 1, 0, 2, 0x68, 0x69, 8, 0, 1, 6, 0x3F, 0xF0, 0, 0, 0, 0, 0, 0]
    let pool := (resolveAll [.string "hi", .double .one] ∅).2
    toBytes pool = bytes ∧ Constant.utf8 "hi" ∈ pool.constants.toList ∧
      (UInt16.ofNat (ModifiedUtf8.encode "hi").length).toNat = 2 ∧
      read bytes = some ([(⟨1⟩, .utf8 "hi"), (⟨2⟩, .string ⟨1⟩), (⟨3⟩, .double .one)], []) := by
  have constants : (resolveAll [.string "hi", .double .one] ∅).2.constants.toList
      = [.utf8 "hi", .string ⟨1⟩, .double .one] := by cbv
  have written : toBytes (resolveAll [.string "hi", .double .one] ∅).2
      = [0, 5, 1, 0, 2, 0x68, 0x69, 8, 0, 1, 6, 0x3F, 0xF0, 0, 0, 0, 0, 0, 0] := by cbv
  have held : Constant.utf8 "hi"
      ∈ (resolveAll [.string "hi", .double .one] ∅).2.constants.toList := by
    rw [constants]
    exact List.mem_cons_self
  obtain ⟨whole, _, lengths, _⟩ := bytes_faithful [.string "hi", .double .one]
  rw [written, entries_eq_indexed, constants] at whole
  exact ⟨written, held, (lengths "hi" held).trans (by decide), whole⟩

end JvmCode.ConstantPool
