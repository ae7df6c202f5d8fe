import JvmCode.ConstantPool.Lookup
/-!
# The entries of a constant pool

A pool lists its entries with the indices that follow from the widths of the entries
before them, counted in 16-bit words. Here the same list is given by recursion on the
constants and in unbounded numbers (`indexed`). As long as the pool is within its limit
no index wraps, so an index names one entry (`get?_eq_some_iff`).

A pool that holds the entries of another one first is an extension of it (`Extends`).
What an index was found to stand for, with all references followed, it stands for in
every extension (`follow?_of_extends`). `Denotes` says in one step what an entry stands
for, so that proofs about `follow?` go by cases on it.

## Main results

* `entries_eq_indexed`: the entries of a pool, without wrapping words.
* `get?_eq_some_iff`: looking up an index is membership in the entries.
* `follow?_of_extends`: following references is stable under extension.
-/

namespace JvmCode.ConstantPool

/-! ## Entries in unbounded numbers -/

/-- How many indices constants take together. -/
def totalWidth : List Constant → Nat
  | [] => 0
  | constant :: rest => constant.width + totalWidth rest

/-- Constants with their indices, when the first one is at `next`. -/
def indexed (next : Nat) : List Constant → List (PoolIndex × Constant)
  | [] => []
  | constant :: rest =>
    (⟨UInt16.ofNat next⟩, constant) :: indexed (next + constant.width) rest

@[simp] theorem totalWidth_nil : totalWidth [] = 0 := rfl

@[simp] theorem totalWidth_cons (constant : Constant) (rest : List Constant) :
    totalWidth (constant :: rest) = constant.width + totalWidth rest := rfl

@[simp] theorem totalWidth_append (constants more : List Constant) :
    totalWidth (constants ++ more) = totalWidth constants + totalWidth more := by
  induction constants with
  | nil => rw [List.nil_append, totalWidth_nil, Nat.zero_add]
  | cons constant rest ih =>
      rw [List.cons_append, totalWidth_cons, totalWidth_cons, ih, Nat.add_assoc]

/-- Entries put at the end have the indices after those of all others. -/
theorem indexed_append (next : Nat) (constants more : List Constant) :
    indexed next (constants ++ more)
      = indexed next constants ++ indexed (next + totalWidth constants) more := by
  induction constants generalizing next with
  | nil => rfl
  | cons constant rest ih =>
      rw [List.cons_append, indexed, indexed, ih, totalWidth_cons, List.cons_append,
        Nat.add_assoc]

/-- Listing constants with their indices keeps them all, in order. -/
theorem map_snd_indexed (next : Nat) (constants : List Constant) :
    (indexed next constants).map Prod.snd = constants := by
  induction constants generalizing next with
  | nil => rfl
  | cons constant rest ih => rw [indexed, List.map_cons, ih]

/-- The entries are listed by a fold over 16-bit words. Adding words is adding the numbers
they were made from, wrapping included, so this needs no bound. -/
theorem entries_eq_indexed (pool : ConstantPool) :
    pool.entries.toList = indexed 1 pool.constants.toList := by
  have fold : ∀ (constants : List Constant) (next : Nat) (listed : Array (PoolIndex × Constant)),
      (constants.foldl
        (fun state constant =>
          (state.1 + UInt16.ofNat constant.width, state.2.push (PoolIndex.mk state.1, constant)))
        (UInt16.ofNat next, listed)).2.toList = listed.toList ++ indexed next constants := by
    intro constants
    induction constants with
    | nil => intro next listed; simp [indexed]
    | cons constant rest ih =>
        intro next listed
        have sum : UInt16.ofNat next + UInt16.ofNat constant.width
            = UInt16.ofNat (next + constant.width) := by simp
        rw [List.foldl_cons]
        simp only [sum]
        rw [ih, indexed, Array.toList_push, List.append_assoc]
        rfl
  have all := fold pool.constants.toList 1 #[]
  rw [Array.foldl_toList] at all
  exact all

/-! ## One index, one entry -/

/-- An entry lies between the first index and the one after the last, if nothing wraps. -/
theorem bounds_of_mem_indexed {next : Nat} {constants : List Constant} {index : PoolIndex}
    {constant : Constant} (small : next + totalWidth constants ≤ 65536)
    (h : (index, constant) ∈ indexed next constants) :
    next ≤ index.val.toNat ∧ index.val.toNat + constant.width ≤ next + totalWidth constants := by
  induction constants generalizing next with
  | nil => cases h
  | cons first rest ih =>
      rw [totalWidth_cons] at small ⊢
      rw [indexed, List.mem_cons] at h
      have firstPos := first.width_pos
      rcases h with h | h
      · cases h
        have unwrapped : (UInt16.ofNat next).toNat = next := by
          rw [UInt16.toNat_ofNat']
          omega
        show next ≤ (UInt16.ofNat next).toNat ∧ (UInt16.ofNat next).toNat + _ ≤ _
        omega
      · have := ih (by omega) h
        omega

/-- Looking an index up finds the entry that has it, if nothing wraps. -/
theorem find?_indexed_eq_some_iff {next : Nat} {constants : List Constant} {index : PoolIndex}
    {constant : Constant} (small : next + totalWidth constants ≤ 65536) :
    ((indexed next constants).find? fun entry => entry.1 == index).map Prod.snd = some constant
      ↔ (index, constant) ∈ indexed next constants := by
  induction constants generalizing next with
  | nil => simp [indexed]
  | cons first rest ih =>
      rw [totalWidth_cons] at small
      have firstPos := first.width_pos
      have later := @ih (next + first.width) (by omega)
      rw [indexed, List.find?_cons, List.mem_cons]
      by_cases here : PoolIndex.mk (UInt16.ofNat next) = index
      · subst here
        have absent : (PoolIndex.mk (UInt16.ofNat next), constant)
            ∉ indexed (next + first.width) rest := by
          intro h
          have low := (bounds_of_mem_indexed (by omega) h).1
          rw [UInt16.toNat_ofNat'] at low
          omega
        simp [absent, eq_comm]
      · have elsewhere : ¬ (index, constant) = (PoolIndex.mk (UInt16.ofNat next), first) := by
          intro h
          exact here (Prod.mk.inj h).1.symm
        have skipped : (PoolIndex.mk (UInt16.ofNat next) == index) = false := beq_false_of_ne here
        simp only [skipped, later, elsewhere, false_or]

theorem mem_entries_iff {pool : ConstantPool} {index : PoolIndex} {constant : Constant} :
    (index, constant) ∈ pool.entries ↔ (index, constant) ∈ indexed 1 pool.constants.toList := by
  rw [← Array.mem_toList_iff, entries_eq_indexed]

theorem mem_constants_of_mem_entries {pool : ConstantPool} {index : PoolIndex}
    {constant : Constant} (h : (index, constant) ∈ pool.entries) :
    constant ∈ pool.constants.toList := by
  have member := List.mem_map_of_mem (f := Prod.snd) (mem_entries_iff.mp h)
  rwa [map_snd_indexed] at member

theorem get?_eq_find? (pool : ConstantPool) (index : PoolIndex) :
    pool.get? index
      = ((indexed 1 pool.constants.toList).find? fun entry => entry.1 == index).map Prod.snd := by
  rw [get?, ← entries_eq_indexed, Array.find?_toList]

/-- In a pool within its limit an index names the entry that is listed with it. -/
theorem get?_eq_some_iff {pool : ConstantPool} {index : PoolIndex} {constant : Constant}
    (small : totalWidth pool.constants.toList < 65536) :
    pool.get? index = some constant ↔ (index, constant) ∈ pool.entries := by
  rw [get?_eq_find?, mem_entries_iff]
  exact find?_indexed_eq_some_iff (by omega)

/-! ## Extensions -/

/-- The later pool starts with the entries of the earlier one. -/
def Extends (pool later : ConstantPool) : Prop :=
  pool.constants.toList <+: later.constants.toList

namespace Extends

theorem refl (pool : ConstantPool) : pool.Extends pool := List.prefix_refl _

theorem trans {a b c : ConstantPool} (h : a.Extends b) (h' : b.Extends c) : a.Extends c :=
  List.IsPrefix.trans h h'

end Extends

theorem get?_of_extends {pool later : ConstantPool} (h : pool.Extends later) {index : PoolIndex}
    {constant : Constant} (found : pool.get? index = some constant) :
    later.get? index = some constant := by
  obtain ⟨added, grown⟩ := h
  rw [get?_eq_find?] at found ⊢
  obtain ⟨entry, first, rfl⟩ := Option.map_eq_some_iff.mp found
  rw [← grown, indexed_append, List.find?_append, first]
  rfl

/-! ## What an entry stands for -/

theorem text?_eq_some_iff {pool : ConstantPool} {index : PoolIndex} {text : String} :
    pool.text? index = some text ↔ pool.get? index = some (.utf8 text) := by
  unfold text?
  split <;> simp_all

theorem className?_eq_some_iff {pool : ConstantPool} {index : PoolIndex} {text : String} :
    pool.className? index = some text ↔
      ∃ name, pool.get? index = some (.classInfo name) ∧ pool.text? name = some text := by
  unfold className?
  split <;> simp_all

theorem nameAndType?_eq_some_iff {pool : ConstantPool} {index : PoolIndex}
    {name descriptor : String} :
    pool.nameAndType? index = some (name, descriptor) ↔
      ∃ nameIndex descriptorIndex,
        pool.get? index = some (.nameAndType nameIndex descriptorIndex) ∧
        pool.text? nameIndex = some name ∧ pool.text? descriptorIndex = some descriptor := by
  unfold nameAndType?
  constructor
  · intro h
    split at h
    · next nameIndex descriptorIndex found =>
        split at h
        · next hName hDescriptor =>
            cases h
            exact ⟨nameIndex, descriptorIndex, found, hName, hDescriptor⟩
        · cases h
    · cases h
  · rintro ⟨nameIndex, descriptorIndex, found, hName, hDescriptor⟩
    simp [found, hName, hDescriptor]

theorem text?_of_extends {pool later : ConstantPool} (h : pool.Extends later) {index : PoolIndex}
    {text : String} (found : pool.text? index = some text) : later.text? index = some text :=
  text?_eq_some_iff.mpr (get?_of_extends h (text?_eq_some_iff.mp found))

theorem className?_of_extends {pool later : ConstantPool} (h : pool.Extends later)
    {index : PoolIndex} {text : String} (found : pool.className? index = some text) :
    later.className? index = some text := by
  obtain ⟨name, entry, hText⟩ := className?_eq_some_iff.mp found
  exact className?_eq_some_iff.mpr ⟨name, get?_of_extends h entry, text?_of_extends h hText⟩

theorem nameAndType?_of_extends {pool later : ConstantPool} (h : pool.Extends later)
    {index : PoolIndex} {both : String × String} (found : pool.nameAndType? index = some both) :
    later.nameAndType? index = some both := by
  obtain ⟨_, _, entry, hName, hDescriptor⟩ := nameAndType?_eq_some_iff.mp found
  exact nameAndType?_eq_some_iff.mpr
    ⟨_, _, get?_of_extends h entry, text?_of_extends h hName, text?_of_extends h hDescriptor⟩

/-- An entry of the pool stands for a constant, by the texts its references end in. -/
inductive Denotes (pool : ConstantPool) : Constant → ResolvedConstant → Prop
  | utf8 (text : String) : Denotes pool (.utf8 text) (.utf8 text)
  | integer (value : Int32) : Denotes pool (.integer value) (.integer value)
  | float (value : Binary32) : Denotes pool (.float value) (.float value)
  | long (value : Int64) : Denotes pool (.long value) (.long value)
  | double (value : Binary64) : Denotes pool (.double value) (.double value)
  | classInfo {name : PoolIndex} {text : String} (h : pool.text? name = some text) :
      Denotes pool (.classInfo name) (.classInfo text)
  | string {index : PoolIndex} {text : String} (h : pool.text? index = some text) :
      Denotes pool (.string index) (.string text)
  | methodRef {owner member : PoolIndex} {class_ name descriptor : String} {isInterface : Bool}
      (hOwner : pool.className? owner = some class_)
      (hMember : pool.nameAndType? member = some (name, descriptor)) :
      Denotes pool (.methodRef owner member isInterface)
        (.methodRef class_ name descriptor isInterface)
  | nameAndType {nameIndex descriptorIndex : PoolIndex} {name descriptor : String}
      (hName : pool.text? nameIndex = some name)
      (hDescriptor : pool.text? descriptorIndex = some descriptor) :
      Denotes pool (.nameAndType nameIndex descriptorIndex) (.nameAndType name descriptor)
  | methodType {index : PoolIndex} {descriptor : String}
      (h : pool.text? index = some descriptor) :
      Denotes pool (.methodType index) (.methodType descriptor)

theorem follow?_eq_some_iff {pool : ConstantPool} {index : PoolIndex}
    {resolved : ResolvedConstant} :
    pool.follow? index = some resolved ↔
      ∃ constant, pool.get? index = some constant ∧ pool.Denotes constant resolved := by
  constructor
  · intro h
    unfold follow? at h
    cases found : pool.get? index with
    | none => simp [found] at h
    | some constant =>
        refine ⟨constant, rfl, ?_⟩
        rw [found] at h
        cases constant with
        | utf8 text => cases h; exact .utf8 text
        | integer value => cases h; exact .integer value
        | float value => cases h; exact .float value
        | long value => cases h; exact .long value
        | double value => cases h; exact .double value
        | classInfo name =>
            obtain ⟨text, hText, rfl⟩ := Option.map_eq_some_iff.mp h
            exact .classInfo hText
        | string index =>
            obtain ⟨text, hText, rfl⟩ := Option.map_eq_some_iff.mp h
            exact .string hText
        | methodType index =>
            obtain ⟨text, hText, rfl⟩ := Option.map_eq_some_iff.mp h
            exact .methodType hText
        | nameAndType nameIndex descriptorIndex =>
            obtain ⟨⟨name, descriptor⟩, hBoth, rfl⟩ := Option.map_eq_some_iff.mp h
            obtain ⟨_, _, same, hName, hDescriptor⟩ := nameAndType?_eq_some_iff.mp hBoth
            rw [found] at same
            cases same
            exact .nameAndType hName hDescriptor
        | methodRef owner member isInterface =>
            simp only at h
            split at h
            · next hOwner hMember => cases h; exact .methodRef hOwner hMember
            · cases h
  · rintro ⟨constant, found, h⟩
    unfold follow?
    rw [found]
    cases h with
    | nameAndType hName hDescriptor =>
        have both := nameAndType?_eq_some_iff.mpr ⟨_, _, found, hName, hDescriptor⟩
        simp [both]
    | _ => simp_all

/-- What an entry stands for does not change as the pool grows. -/
theorem Denotes.of_extends {pool later : ConstantPool} (h : pool.Extends later)
    {constant : Constant} {resolved : ResolvedConstant} (denotes : pool.Denotes constant resolved) :
    later.Denotes constant resolved := by
  cases denotes with
  | utf8 text => exact .utf8 text
  | integer value => exact .integer value
  | float value => exact .float value
  | long value => exact .long value
  | double value => exact .double value
  | classInfo hText => exact .classInfo (text?_of_extends h hText)
  | string hText => exact .string (text?_of_extends h hText)
  | methodType hText => exact .methodType (text?_of_extends h hText)
  | nameAndType hName hDescriptor =>
      exact .nameAndType (text?_of_extends h hName) (text?_of_extends h hDescriptor)
  | methodRef hOwner hMember =>
      exact .methodRef (className?_of_extends h hOwner) (nameAndType?_of_extends h hMember)

theorem follow?_of_extends {pool later : ConstantPool} (h : pool.Extends later)
    {index : PoolIndex} {resolved : ResolvedConstant}
    (found : pool.follow? index = some resolved) : later.follow? index = some resolved := by
  obtain ⟨constant, entry, denotes⟩ := follow?_eq_some_iff.mp found
  exact follow?_eq_some_iff.mpr ⟨constant, get?_of_extends h entry, denotes.of_extends h⟩

end JvmCode.ConstantPool
