import JvmCode.Proofs.ConstantPool.Contents
import Mathlib.Data.List.Perm.Subperm
import Mathlib.Data.List.Permutation
/-!
# Requests in another order

The order in which requests are made decides which index each entry has, and so what entries
that refer to others look like. It decides nothing else. When all requests of a run are
answered, the contents of the pool are the parts of the requests, each once. Another run of
the same requests never holds anything but these parts, so it cannot run out of room where the
first one did not, and it ends with the same contents.

Two pools with the same contents differ by a renaming of indices (`Built.exists_renaming`), which is
applied to entries and to the references in them.

## Main results

* `built_of_allAnswered`: what a pool holds after a run in which all requests are answered.
* `allAnswered_of_subset`: requests are answered if all their parts fit in some pool together.
* `Built.exists_renaming`: pools with the same contents have the same entries up to their indices.
* `order_irrelevant`: runs of the same requests.
-/

namespace JvmCode

/-- The constant with other indices in its references. -/
def Constant.renamed (rename : PoolIndex → PoolIndex) : Constant → Constant
  | classInfo name => .classInfo (rename name)
  | string text => .string (rename text)
  | methodRef owner member isInterface => .methodRef (rename owner) (rename member) isInterface
  | nameAndType name descriptor => .nameAndType (rename name) (rename descriptor)
  | methodType descriptor => .methodType (rename descriptor)
  | value => value

namespace ConstantPool

/-! ## Runs in which all requests are answered -/

/-- In the run of the requests on the pool each of them is answered with an index. -/
def AllAnswered (requests : List PoolRequest) (pool : ConstantPool) : Prop :=
  ∀ answer ∈ (resolveAll requests pool).1, ∃ index, answer = .ok index

section Runs

variable {pool whole : ConstantPool} {contents bound : List ResolvedConstant}
  {request : PoolRequest} {requests : List PoolRequest}

theorem allAnswered_nil : AllAnswered [] pool := by
  intro answer member
  exact absurd member (Array.not_mem_empty answer)

/-- A run is answered when its first request is, and the run of the others from there. -/
theorem allAnswered_cons_iff :
    AllAnswered (request :: requests) pool ↔
      ∃ index after, resolve request pool = .ok index after ∧ AllAnswered requests after := by
  unfold AllAnswered
  rw [resolveAll_cons]
  simp only [Array.mem_append, List.mem_toArray, List.mem_singleton]
  constructor
  · intro all
    obtain ⟨index, first⟩ := all _ (.inl rfl)
    cases run : resolve request pool with
    | error fault after =>
        rw [run] at first
        cases first
    | ok found after =>
        refine ⟨found, after, rfl, fun answer member => all answer (.inr ?_)⟩
        rw [run]
        exact member
  · rintro ⟨index, after, run, others⟩ answer (rfl | member)
    · rw [run]
      exact ⟨index, rfl⟩
    · rw [run] at member
      exact others answer member

/-- After a run in which all requests are answered the pool holds all their parts. -/
theorem built_of_allAnswered (h : Built pool contents) (answered : AllAnswered requests pool) :
    Built (resolveAll requests pool).2 (grow contents (requests.flatMap PoolRequest.parts)) := by
  induction requests generalizing pool contents with
  | nil => exact h
  | cons request requests ih =>
      obtain ⟨index, after, run, others⟩ := allAnswered_cons_iff.mp answered
      have enters := resolve_enters h request
      unfold Enters at enters
      rw [run] at enters
      rw [resolveAll_cons, run, List.flatMap_cons, grow_append]
      exact ih enters.2.1 others

/-- The order of contents does not matter for how many indices they take. -/
theorem contentsWidth_eq_of_perm (perm : contents.Perm bound) :
    contentsWidth contents = contentsWidth bound := by
  induction perm with
  | nil => rfl
  | cons part _ ih => rw [contentsWidth, contentsWidth, ih]
  | swap first second rest =>
      simp only [contentsWidth]
      omega
  | trans _ _ ih ih' => rw [ih, ih']

theorem contentsWidth_le_of_sublist (inside : contents.Sublist bound) :
    contentsWidth contents ≤ contentsWidth bound := by
  induction inside with
  | slnil => exact Nat.le_refl 0
  | cons part _ ih => exact Nat.le_trans ih (Nat.le_add_left _ _)
  | cons_cons part _ ih => exact Nat.add_le_add_left ih _

theorem contentsWidth_le_of_subset (nodup : contents.Nodup) (inside : contents ⊆ bound) :
    contentsWidth contents ≤ contentsWidth bound := by
  obtain ⟨middle, perm, sublist⟩ := nodup.subperm inside
  calc contentsWidth contents
      = contentsWidth middle := (contentsWidth_eq_of_perm perm).symm
    _ ≤ contentsWidth bound := contentsWidth_le_of_sublist sublist

/-- A request is answered if its parts and all that the pool holds were held by some pool
together. -/
theorem resolve_of_subset (h : Built pool contents) (together : Built whole bound)
    (inside : contents ⊆ bound) (parts : request.parts ⊆ bound) :
    ∃ index after, resolve request pool = .ok index after ∧
      Built after (grow contents request.parts) := by
  have enters := resolve_enters h request
  unfold Enters at enters
  cases run : resolve request pool with
  | ok index after =>
      rw [run] at enters
      exact ⟨index, after, rfl, enters.2.1⟩
  | error fault after =>
      rw [run] at enters
      obtain ⟨_, entered, part, rest, cut, built, missing, refused⟩ := enters
      have mine : part ∈ bound := parts (by rw [cut]; simp)
      exfalso
      cases refused with
      | tooLong long => exact absurd (together.text_le mine) (Nat.not_le_of_lt long)
      | @full constant _ denotes noRoom =>
          have distinct : (grow contents entered ++ [part]).Nodup :=
            built.nodup.append (List.nodup_singleton _) (List.disjoint_singleton.mpr missing)
          have held : grow contents entered ++ [part] ⊆ bound := by
            intro other member
            rcases List.mem_append.mp member with old | new
            · rcases mem_grow.mp old with before | own
              · exact inside before
              · exact parts (by rw [cut]; exact List.mem_append_left _ own)
            · rwa [List.mem_singleton.mp new]
          have fits := contentsWidth_le_of_subset distinct held
          have limited := together.consistent.slots_lt
          rw [contentsWidth_append_singleton] at fits
          rw [built.count_eq, denotes.width_eq] at noRoom
          rw [together.slots_eq] at limited
          omega

/-- The same for runs: it does not matter in which order the parts are asked for. -/
theorem allAnswered_of_subset (h : Built pool contents) (together : Built whole bound)
    (inside : contents ⊆ bound)
    (parts : ∀ request ∈ requests, request.parts ⊆ bound) : AllAnswered requests pool := by
  induction requests generalizing pool contents with
  | nil => exact allAnswered_nil
  | cons request requests ih =>
      obtain ⟨own, others⟩ := List.forall_mem_cons.mp parts
      obtain ⟨index, after, run, built⟩ := resolve_of_subset h together inside own
      refine allAnswered_cons_iff.mpr ⟨index, after, run, ih built ?_ others⟩
      intro constant member
      rcases mem_grow.mp member with before | new
      · exact inside before
      · exact own new

end Runs

/-! ## Renaming -/

section Renaming

variable {pool other : ConstantPool} {contents contents' : List ResolvedConstant}

theorem text?_eq_some_iff_follow? {index : PoolIndex} {text : String} :
    pool.text? index = some text ↔ pool.follow? index = some (.utf8 text) := by
  rw [text?_eq_some_iff, follow?_eq_some_iff]
  constructor
  · intro entry
    exact ⟨_, entry, .utf8 text⟩
  · rintro ⟨_, entry, denotes⟩
    cases denotes
    exact entry

theorem className?_eq_some_iff_follow? {index : PoolIndex} {name : String} :
    pool.className? index = some name ↔ pool.follow? index = some (.classInfo name) := by
  rw [className?_eq_some_iff, follow?_eq_some_iff]
  constructor
  · rintro ⟨_, entry, hText⟩
    exact ⟨_, entry, .classInfo hText⟩
  · rintro ⟨_, entry, denotes⟩
    cases denotes with
    | classInfo hText => exact ⟨_, entry, hText⟩

theorem nameAndType?_eq_some_iff_follow? {index : PoolIndex} {name descriptor : String} :
    pool.nameAndType? index = some (name, descriptor) ↔
      pool.follow? index = some (.nameAndType name descriptor) := by
  rw [nameAndType?_eq_some_iff, follow?_eq_some_iff]
  constructor
  · rintro ⟨_, _, entry, hName, hDescriptor⟩
    exact ⟨_, entry, .nameAndType hName hDescriptor⟩
  · rintro ⟨_, entry, denotes⟩
    cases denotes with
    | nameAndType hName hDescriptor => exact ⟨_, _, entry, hName, hDescriptor⟩

/-- What is found at an index of the one pool is found at the renamed index of the other. -/
def Renames (rename : PoolIndex → PoolIndex) (pool other : ConstantPool) : Prop :=
  ∀ index resolved, pool.follow? index = some resolved →
    other.follow? (rename index) = some resolved

/-- A renamed entry stands for the same constant in the other pool. -/
theorem Denotes.renamed {rename : PoolIndex → PoolIndex} (h : Renames rename pool other)
    {constant : Constant} {resolved : ResolvedConstant} (denotes : pool.Denotes constant resolved) :
    other.Denotes (constant.renamed rename) resolved := by
  have text : ∀ {index : PoolIndex} {text : String}, pool.text? index = some text →
      other.text? (rename index) = some text := by
    intro index text found
    exact text?_eq_some_iff_follow?.mpr (h _ _ (text?_eq_some_iff_follow?.mp found))
  cases denotes with
  | utf8 text => exact .utf8 text
  | integer value => exact .integer value
  | float value => exact .float value
  | long value => exact .long value
  | double value => exact .double value
  | classInfo hText => exact .classInfo (text hText)
  | string hText => exact .string (text hText)
  | methodType hText => exact .methodType (text hText)
  | nameAndType hName hDescriptor => exact .nameAndType (text hName) (text hDescriptor)
  | methodRef hOwner hMember =>
      exact .methodRef
        (className?_eq_some_iff_follow?.mpr (h _ _ (className?_eq_some_iff_follow?.mp hOwner)))
        (nameAndType?_eq_some_iff_follow?.mpr
          (h _ _ (nameAndType?_eq_some_iff_follow?.mp hMember)))

theorem Consistent.mem_entries_iff (h : pool.Consistent) {index : PoolIndex}
    {constant : Constant} :
    (index, constant) ∈ pool.entries.toList ↔ pool.get? index = some constant := by
  rw [Array.mem_toList_iff, ConstantPool.get?_eq_some_iff h.totalWidth_lt]

/-- The entries with their indices, and the references in them, renamed. -/
def renamedEntries (rename : PoolIndex → PoolIndex) (pool : ConstantPool) :
    List (PoolIndex × Constant) :=
  pool.entries.toList.map fun entry => (rename entry.1, entry.2.renamed rename)

namespace Built

/-- Every entry is found, and stands for some constant. -/
theorem denotes_of_mem_entries (h : Built pool contents) {index : PoolIndex}
    {constant : Constant} (listed : (index, constant) ∈ pool.entries.toList) :
    ∃ resolved, pool.Denotes constant resolved ∧ pool.follow? index = some resolved := by
  have member := mem_constants_of_mem_entries (Array.mem_toList_iff.mp listed)
  obtain ⟨resolved, _, denotes⟩ := h.exists_denotes member
  have entry := h.consistent.mem_entries_iff.mp listed
  exact ⟨resolved, denotes, follow?_eq_some_iff.mpr ⟨constant, entry, denotes⟩⟩

theorem nodup_entries (h : Built pool contents) : pool.entries.toList.Nodup := by
  refine List.Nodup.of_map Prod.snd ?_
  rw [entries_eq_indexed, map_snd_indexed]
  exact h.nodup_constants

theorem length_entries (h : Built pool contents) :
    pool.entries.toList.length = contents.length := by
  rw [← h.size_eq, size, ← Array.length_toList, ← map_snd_indexed 1 pool.constants.toList,
    List.length_map, entries_eq_indexed]

variable {rename : PoolIndex → PoolIndex}

/-- Where one pool holds what another one holds, there is a renaming. -/
theorem exists_renames (h : Built pool contents) (h' : Built other contents')
    (held : contents ⊆ contents') : ∃ rename, Renames rename pool other := by
  have found : ∀ index, ∃ renamed, ∀ resolved, pool.follow? index = some resolved →
      other.follow? renamed = some resolved := by
    intro index
    cases stands : pool.follow? index with
    | none => exact ⟨index, fun _ known => by cases known⟩
    | some resolved =>
        have there := held (h.exists_follow?_iff.mp ⟨index, stands⟩)
        obtain ⟨renamed, follows⟩ := h'.exists_follow?_iff.mpr there
        exact ⟨renamed, fun _ known => by cases known; exact follows⟩
  choose rename renames using found
  exact ⟨rename, renames⟩

theorem renamedEntries_subset (h : Built pool contents) (h' : Built other contents')
    (renames : Renames rename pool other) :
    renamedEntries rename pool ⊆ other.entries.toList := by
  intro entry member
  obtain ⟨⟨index, constant⟩, listed, rfl⟩ := List.mem_map.mp member
  obtain ⟨resolved, denotes, stands⟩ := h.denotes_of_mem_entries listed
  obtain ⟨there, entry, denotes'⟩ := follow?_eq_some_iff.mp (renames _ _ stands)
  obtain rfl := h'.consistent.denotes_injective denotes' (denotes.renamed renames)
  exact h'.consistent.mem_entries_iff.mpr entry

/-- Entries that are renamed alike stand for the same constant, so they are the same. -/
theorem nodup_renamedEntries (h : Built pool contents) (renames : Renames rename pool other) :
    (renamedEntries rename pool).Nodup := by
  refine h.nodup_entries.map_on ?_
  rintro ⟨i, c⟩ hi ⟨j, d⟩ hj equal
  obtain ⟨_, sameConstant⟩ := Prod.mk.inj equal
  obtain ⟨resolved, hc, _⟩ := h.denotes_of_mem_entries hi
  obtain ⟨_, hd, _⟩ := h.denotes_of_mem_entries hj
  have there := hc.renamed renames
  rw [sameConstant] at there
  obtain rfl := there.unique (hd.renamed renames)
  obtain rfl := h.consistent.denotes_injective hc hd
  have sameIndex := h.consistent.index_unique (h.consistent.mem_entries_iff.mp hi)
    (h.consistent.mem_entries_iff.mp hj)
  rw [sameIndex]

/-- Pools with the same contents have the same entries, up to a renaming of the indices. -/
theorem exists_renaming (h : Built pool contents) (h' : Built other contents')
    (same : contents.Perm contents') :
    ∃ rename, (renamedEntries rename pool).Perm other.entries.toList := by
  obtain ⟨rename, renames⟩ := h.exists_renames h' same.subset
  have inside := h.renamedEntries_subset h' renames
  have sameLength : other.entries.toList.length = (renamedEntries rename pool).length := by
    rw [renamedEntries, List.length_map, h.length_entries, h'.length_entries, same.length_eq]
  have subperm := (h.nodup_renamedEntries renames).subperm inside
  exact ⟨rename, subperm.perm_of_length_le (Nat.le_of_eq sameLength)⟩

end Built

end Renaming

/-! ## Runs of the same requests -/

/-- What a pool holds after all requests are answered does not depend on their order. -/
theorem grow_perm_of_mem_iff {requests reordered : List PoolRequest}
    {pool other : ConstantPool}
    (h : Built pool (grow [] (requests.flatMap PoolRequest.parts)))
    (h' : Built other (grow [] (reordered.flatMap PoolRequest.parts)))
    (same : ∀ request, request ∈ requests ↔ request ∈ reordered) :
    (grow [] (requests.flatMap PoolRequest.parts)).Perm
      (grow [] (reordered.flatMap PoolRequest.parts)) := by
  refine (List.perm_ext_iff_of_nodup h.nodup h'.nodup).mpr fun part => ?_
  simp only [mem_grow, List.not_mem_nil, false_or, List.mem_flatMap, same]

/-- **The order of requests is irrelevant.** Let all requests of a run on a new pool be answered,
and take any run of the same requests, in any order and each any number of times. Then all of
that run are answered too. Both pools have the same count and as many entries, the same
constants can be found in them, and the entries of the one are those of the other up to a
renaming of the indices. -/
theorem order_irrelevant {requests reordered : List PoolRequest}
    (same : ∀ request, request ∈ requests ↔ request ∈ reordered)
    (answered : AllAnswered requests ∅) :
    let pool := (resolveAll requests ∅).2
    let other := (resolveAll reordered ∅).2
    AllAnswered reordered ∅ ∧ pool.count = other.count ∧ pool.size = other.size ∧
    (∀ resolved, (∃ index, pool.follow? index = some resolved) ↔
      ∃ index, other.follow? index = some resolved) ∧
    (∃ rename, (renamedEntries rename pool).Perm other.entries.toList) := by
  intro pool other
  have built : Built pool (grow [] (requests.flatMap PoolRequest.parts)) :=
    built_of_allAnswered .empty answered
  have parts : ∀ request ∈ reordered,
      request.parts ⊆ grow [] (requests.flatMap PoolRequest.parts) := by
    intro request member part own
    exact mem_grow.mpr (.inr (List.mem_flatMap.mpr ⟨request, (same request).mpr member, own⟩))
  have alsoAnswered := allAnswered_of_subset .empty built (List.nil_subset _) parts
  have alsoBuilt : Built other (grow [] (reordered.flatMap PoolRequest.parts)) :=
    built_of_allAnswered .empty alsoAnswered
  have perm := grow_perm_of_mem_iff built alsoBuilt same
  refine ⟨alsoAnswered, ?_, ?_, ?_, built.exists_renaming alsoBuilt perm⟩
  · rw [← UInt16.toNat_inj, built.count_eq, alsoBuilt.count_eq, contentsWidth_eq_of_perm perm]
  · rw [built.size_eq, alsoBuilt.size_eq, perm.length_eq]
  · intro resolved
    rw [built.exists_follow?_iff, alsoBuilt.exists_follow?_iff, perm.mem_iff]

/-- A class and a string share their text, and a `long` comes before or after them, once or
twice. Where the string was the third entry it is now the fourth. -/
theorem order_irrelevant_shared :
    let requests : List PoolRequest := [.classInfo .object, .string "java/lang/Object", .long 5]
    let reordered : List PoolRequest :=
      [.long 5, .string "java/lang/Object", .long 5, .classInfo .object]
    (∀ request, request ∈ requests ↔ request ∈ reordered) ∧ AllAnswered requests ∅ ∧
      AllAnswered reordered ∅ ∧
      (resolveAll requests ∅).2.count = 6 ∧ (resolveAll reordered ∅).2.count = 6 ∧
      (resolveAll requests ∅).2.follow? ⟨3⟩ = some (.string "java/lang/Object") ∧
      (resolveAll reordered ∅).2.follow? ⟨4⟩ = some (.string "java/lang/Object") := by
  intro requests reordered
  have same : ∀ request, request ∈ requests ↔ request ∈ reordered := by
    intro request
    simp only [requests, reordered, List.mem_cons, List.not_mem_nil, or_false]
    tauto
  have answers : (resolveAll [.classInfo .object, .string "java/lang/Object", .long 5] ∅).1
      = #[.ok ⟨2⟩, .ok ⟨3⟩, .ok ⟨4⟩] := by cbv
  have answered : AllAnswered requests ∅ := by
    intro answer member
    rw [answers] at member
    simp only [List.mem_toArray, List.mem_cons, List.not_mem_nil, or_false] at member
    rcases member with rfl | rfl | rfl
    · exact ⟨_, rfl⟩
    · exact ⟨_, rfl⟩
    · exact ⟨_, rfl⟩
  have count : (resolveAll requests ∅).2.count = 6 := by
    simp only [requests]
    cbv
  obtain ⟨alsoAnswered, sameCount, _, _, _⟩ := order_irrelevant same answered
  refine ⟨same, answered, alsoAnswered, count, sameCount.symm.trans count, ?_, ?_⟩
  · simp only [requests]
    cbv
  · simp only [reordered]
    cbv

end ConstantPool

end JvmCode
