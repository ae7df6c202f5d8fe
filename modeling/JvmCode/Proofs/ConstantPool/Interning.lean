import JvmCode.ConstantPool.Reader
import JvmCode.Proofs.ConstantPool.Entries
/-!
# Interning and stable indices

A pool keeps its constants twice, as a list of entries and as a table from constants to
indices, and counts the indices it has given out. `Consistent` ties the three together.
Requests ask for several entries in turn and may be refused half way; `Answers` says of
such an operation that it leaves a consistent extension of the pool whether it answers or
not, and it is composed along the steps (`Answers.bind`).

From this follows what a pool promises over its whole life: an index that was once
answered stands for what was requested, in every later pool, and the same request is
answered by it without changing the pool.

## Main results

* `Consistent.add`: a new entry keeps a pool consistent.
* `resolve_answers`: what a request leaves behind, answered or refused.
* `resolve_of_follow?`: a request for what is there is answered with where it is.
* `resolveAll_grows`, `resolveAll_follow?`: the same for whole runs of requests.
* `index_permanent`: the promise of a pool over its life.
-/

namespace JvmCode

/-- Entries that a pool can write: texts are not too long. -/
theorem Constant.textFits_utf8_iff (text : String) :
    (Constant.utf8 text).TextFits ↔ ModifiedUtf8.byteLength text ≤ ConstantPool.limit := by
  rw [ModifiedUtf8.byteLength_eq]
  rfl

namespace ConstantPool

/-! ## Consistent pools -/

/-- The table, the entries and the count of a pool agree, and all entries can be written. -/
structure Consistent (pool : ConstantPool) : Prop where
  slots_eq : pool.slots = totalWidth pool.constants.toList
  slots_lt : pool.slots < limit
  interned_iff : ∀ constant index,
    pool.interned[constant]? = some index ↔ (index, constant) ∈ pool.entries
  textFits : ∀ constant ∈ pool.constants.toList, constant.TextFits

/-- The pool with one more entry, at the first free index. -/
def add (pool : ConstantPool) (constant : Constant) : ConstantPool where
  constants := pool.constants.push constant
  interned := pool.interned.insert constant ⟨pool.count⟩
  slots := pool.slots + constant.width

theorem extends_add (pool : ConstantPool) (constant : Constant) :
    pool.Extends (pool.add constant) := by
  show pool.constants.toList <+: (pool.constants.push constant).toList
  rw [Array.toList_push]
  exact List.prefix_append _ _

theorem consistent_empty : Consistent ∅ where
  slots_eq := rfl
  slots_lt := by decide
  interned_iff constant index := by
    rw [mem_entries_iff]
    constructor
    · intro h
      have none : (∅ : ConstantPool).interned[constant]? = none := Std.HashMap.getElem?_empty
      rw [none] at h
      cases h
    · intro h
      cases h
  textFits constant h := by cases h

namespace Consistent

variable {pool : ConstantPool} {constant : Constant} {index : PoolIndex}

/-- The count is not cut off by its 16 bits. -/
theorem count_toNat (h : pool.Consistent) : pool.count.toNat = pool.slots + 1 := by
  have bound := h.slots_lt
  rw [limit] at bound
  rw [count, UInt16.toNat_ofNat']
  omega

theorem totalWidth_lt (h : pool.Consistent) : totalWidth pool.constants.toList < 65536 := by
  have bound := h.slots_lt
  rw [h.slots_eq, limit] at bound
  omega

theorem get?_eq_some_iff (h : pool.Consistent) :
    pool.get? index = some constant ↔ pool.interned[constant]? = some index := by
  rw [ConstantPool.get?_eq_some_iff h.totalWidth_lt, h.interned_iff]

/-- The entries after one was added: those before, then the new one at the count. -/
theorem mem_entries_add_iff (h : pool.Consistent) {added : Constant} :
    (index, constant) ∈ (pool.add added).entries ↔
      (index, constant) ∈ pool.entries ∨ index = ⟨pool.count⟩ ∧ constant = added := by
  have place : PoolIndex.mk (UInt16.ofNat (1 + totalWidth pool.constants.toList))
      = ⟨pool.count⟩ := by
    rw [count, h.slots_eq, Nat.add_comm]
  have list : (pool.add added).constants.toList = pool.constants.toList ++ [added] :=
    Array.toList_push
  rw [mem_entries_iff, mem_entries_iff, list, indexed_append, List.mem_append, indexed, indexed,
    place, List.mem_singleton, Prod.mk.injEq]

/-- Adding an entry that is missing and has room keeps a pool consistent. -/
theorem add (h : pool.Consistent) (missing : pool.interned[constant]? = none)
    (room : pool.count.toNat + constant.width ≤ limit) (fits : constant.TextFits) :
    (pool.add constant).Consistent where
  slots_eq := by
    show pool.slots + constant.width = totalWidth (pool.constants.push constant).toList
    rw [h.slots_eq, Array.toList_push, totalWidth_append, totalWidth_cons, totalWidth_nil,
      Nat.add_zero]
  slots_lt := by
    have count := h.count_toNat
    show pool.slots + constant.width < limit
    omega
  interned_iff other index := by
    rw [h.mem_entries_add_iff, ← h.interned_iff]
    show (pool.interned.insert constant ⟨pool.count⟩)[other]? = some index ↔ _
    rw [Std.HashMap.getElem?_insert]
    by_cases same : constant = other
    · subst same
      simp [missing, eq_comm]
    · simp [same, Ne.symm same]
  textFits other member := by
    have list : (pool.add constant).constants.toList = pool.constants.toList ++ [constant] :=
      Array.toList_push
    rw [list, List.mem_append, List.mem_singleton] at member
    rcases member with old | rfl
    · exact h.textFits other old
    · exact fits

end Consistent

/-! ## Operations that answer -/

theorem bind_of_ok {ε α β : Type} {first : EStateM ε ConstantPool α}
    {next : α → EStateM ε ConstantPool β} {pool after : ConstantPool} {answer : α}
    {result : EStateM.Result ε ConstantPool β} (h : first pool = .ok answer after)
    (rest : next answer after = result) :
    (first >>= next) pool = result := by
  show EStateM.bind first next pool = result
  unfold EStateM.bind
  rw [h]
  exact rest

/-- From this pool the operation reaches a consistent extension, answered or refused, and
what it answers is right there. -/
def Answers {ε α : Type} (start : ConstantPool) (operation : EStateM ε ConstantPool α)
    (right : α → ConstantPool → Prop) : Prop :=
  match operation start with
  | .ok answer pool => pool.Consistent ∧ start.Extends pool ∧ right answer pool
  | .error _ pool => pool.Consistent ∧ start.Extends pool

namespace Answers

variable {ε α β : Type} {start : ConstantPool}

/-- Two operations in turn. The second one runs in whatever pool the first one answered in. -/
theorem bind {first : EStateM ε ConstantPool α} {next : α → EStateM ε ConstantPool β}
    {between : α → ConstantPool → Prop} {right : β → ConstantPool → Prop}
    (h : Answers start first between)
    (rest : ∀ answer pool, pool.Consistent → start.Extends pool → between answer pool →
      Answers pool (next answer) right) :
    Answers start (first >>= next) right := by
  show match EStateM.bind first next start with
    | .ok answer pool => _
    | .error _ pool => _
  unfold EStateM.bind
  unfold Answers at h
  cases run : first start with
  | error fault pool =>
      rw [run] at h
      exact h
  | ok answer pool =>
      rw [run] at h
      obtain ⟨consistent, grown, found⟩ := h
      have later := rest answer pool consistent grown found
      unfold Answers at later
      simp only
      cases further : next answer pool with
      | error fault last =>
          rw [further] at later
          exact ⟨later.1, grown.trans later.2⟩
      | ok result last =>
          rw [further] at later
          exact ⟨later.1, grown.trans later.2.1, later.2.2⟩

/-- What a success stands for. -/
theorem of_ok {operation : EStateM ε ConstantPool α} {right : α → ConstantPool → Prop}
    (h : Answers start operation right) {answer : α} {pool : ConstantPool}
    (run : operation start = .ok answer pool) :
    pool.Consistent ∧ start.Extends pool ∧ right answer pool := by
  unfold Answers at h
  rw [run] at h
  exact h

/-- The same operation with less said about what it answers. -/
theorem mono {operation : EStateM ε ConstantPool α} {right weaker : α → ConstantPool → Prop}
    (h : Answers start operation right)
    (implies : ∀ answer pool, start.Extends pool → right answer pool → weaker answer pool) :
    Answers start operation weaker := by
  unfold Answers at h ⊢
  cases run : operation start with
  | error fault pool =>
      rw [run] at h
      exact h
  | ok answer pool =>
      rw [run] at h
      exact ⟨h.1, h.2.1, implies answer pool h.2.1 h.2.2⟩

end Answers

theorem intern_answers {pool : ConstantPool} (h : pool.Consistent) {constant : Constant}
    (fits : constant.TextFits) :
    Answers pool (intern constant) fun index after => after.get? index = some constant := by
  unfold Answers intern
  cases found : pool.interned[constant]? with
  | some index => exact ⟨h, .refl pool, h.get?_eq_some_iff.mpr found⟩
  | none =>
      simp only
      by_cases room : pool.count.toNat + constant.width ≤ limit
      · rw [if_pos room]
        have consistent : (pool.add constant).Consistent := h.add found room fits
        refine ⟨consistent, pool.extends_add constant, ?_⟩
        refine (ConstantPool.get?_eq_some_iff consistent.totalWidth_lt).mpr ?_
        exact h.mem_entries_add_iff.mpr (.inr ⟨rfl, rfl⟩)
      · rw [if_neg room]
        exact ⟨h, .refl pool⟩

theorem internText_answers {pool : ConstantPool} (h : pool.Consistent) (text : String) :
    Answers pool (internText text) fun index after => after.text? index = some text := by
  unfold internText
  by_cases short : ModifiedUtf8.byteLength text ≤ limit
  · rw [if_pos short]
    refine (intern_answers h ((Constant.textFits_utf8_iff text).mpr short)).mono ?_
    intro index after _ found
    exact text?_eq_some_iff.mpr found
  · rw [if_neg short]
    exact ⟨h, .refl pool⟩

theorem internClass_answers {pool : ConstantPool} (h : pool.Consistent) (name : BinaryName) :
    Answers pool (internClass name) fun index after =>
      after.className? index = some name.text := by
  refine (internText_answers h name.text).bind fun text after consistent _ hText => ?_
  have fits : (Constant.classInfo text).TextFits := trivial
  refine (intern_answers consistent fits).mono fun index later grown found => ?_
  exact className?_eq_some_iff.mpr ⟨text, found, text?_of_extends grown hText⟩

theorem internMethodRef_answers {pool : ConstantPool} (h : pool.Consistent)
    (owner : BinaryName) (name descriptor : String) (isInterface : Bool) :
    Answers pool (internMethodRef owner name descriptor isInterface) fun index after =>
      after.follow? index = some (.methodRef owner.text name descriptor isInterface) := by
  refine (internClass_answers h owner).bind fun ownerIndex _ h₁ _ hOwner => ?_
  refine (internText_answers h₁ name).bind fun nameIndex _ h₂ grown₂ hName => ?_
  refine (internText_answers h₂ descriptor).bind fun descriptorIndex _ h₃ grown₃ hDescriptor => ?_
  have fitsMember : (Constant.nameAndType nameIndex descriptorIndex).TextFits := trivial
  refine (intern_answers h₃ fitsMember).bind fun member _ h₄ grown₄ hMember => ?_
  have fits : (Constant.methodRef ownerIndex member isInterface).TextFits := trivial
  refine (intern_answers h₄ fits).mono fun index later grown₅ found => ?_
  refine follow?_eq_some_iff.mpr ⟨_, found, .methodRef ?_ ?_⟩
  · exact className?_of_extends
      (grown₂.trans (grown₃.trans (grown₄.trans grown₅))) hOwner
  · refine nameAndType?_of_extends grown₅ (nameAndType?_eq_some_iff.mpr ?_)
    exact ⟨nameIndex, descriptorIndex, hMember, text?_of_extends (grown₃.trans grown₄) hName,
      text?_of_extends grown₄ hDescriptor⟩

/-- Answering a request with one entry of its own, which stands for it right away. -/
theorem intern_answers_of_denotes {pool : ConstantPool} (h : pool.Consistent)
    {constant : Constant} {resolved : ResolvedConstant} (fits : constant.TextFits)
    (denotes : ∀ later, pool.Extends later → later.Denotes constant resolved) :
    Answers pool (intern constant) fun index after => after.follow? index = some resolved := by
  refine (intern_answers h fits).mono fun index later grown found => ?_
  exact follow?_eq_some_iff.mpr ⟨constant, found, denotes later grown⟩

/-- A request leaves a consistent extension of the pool behind, and the index it is answered
with stands for what was requested. -/
theorem resolve_answers {pool : ConstantPool} (h : pool.Consistent) (request : PoolRequest) :
    Answers pool (resolve request) fun index after =>
      after.follow? index = some request.resolved := by
  cases request with
  | utf8 text =>
      refine (internText_answers h text).mono fun index later _ hText => ?_
      exact follow?_eq_some_iff.mpr ⟨_, text?_eq_some_iff.mp hText, .utf8 text⟩
  | classInfo name =>
      refine (internClass_answers h name).mono fun index later _ hClass => ?_
      obtain ⟨text, found, hText⟩ := className?_eq_some_iff.mp hClass
      exact follow?_eq_some_iff.mpr ⟨_, found, .classInfo hText⟩
  | string text =>
      refine (internText_answers h text).bind fun index after consistent _ hText => ?_
      exact intern_answers_of_denotes consistent trivial fun later grown =>
        .string (text?_of_extends grown hText)
  | methodType descriptor =>
      refine (internText_answers h descriptor).bind fun index after consistent _ hText => ?_
      exact intern_answers_of_denotes consistent trivial fun later grown =>
        .methodType (text?_of_extends grown hText)
  | integer value => exact intern_answers_of_denotes h trivial fun _ _ => .integer value
  | float value => exact intern_answers_of_denotes h trivial fun _ _ => .float value
  | long value => exact intern_answers_of_denotes h trivial fun _ _ => .long value
  | double value => exact intern_answers_of_denotes h trivial fun _ _ => .double value
  | methodRef owner name descriptor isInterface =>
      exact internMethodRef_answers h owner name descriptor isInterface

/-! ## Asking again -/

section Again

variable {pool : ConstantPool} {index : PoolIndex}

theorem intern_of_get? (h : pool.Consistent) {constant : Constant}
    (found : pool.get? index = some constant) : intern constant pool = .ok index pool :=
  intern_of_interned (h.get?_eq_some_iff.mp found)

/-- A text that is in the pool was short enough to get there. -/
theorem internText_of_text? (h : pool.Consistent) {text : String}
    (found : pool.text? index = some text) : internText text pool = .ok index pool := by
  have entry := text?_eq_some_iff.mp found
  have listed := (ConstantPool.get?_eq_some_iff h.totalWidth_lt).mp entry
  have short : ModifiedUtf8.byteLength text ≤ limit :=
    (Constant.textFits_utf8_iff text).mp (h.textFits _ (mem_constants_of_mem_entries listed))
  rw [internText, if_pos short]
  exact intern_of_get? h entry

theorem internClass_of_className? (h : pool.Consistent) {name : BinaryName}
    (found : pool.className? index = some name.text) :
    internClass name pool = .ok index pool := by
  obtain ⟨text, entry, hText⟩ := className?_eq_some_iff.mp found
  exact bind_of_ok (internText_of_text? h hText) (intern_of_get? h entry)

theorem internMethodRef_of_methodRef (h : pool.Consistent) {owner : BinaryName}
    {ownerIndex member : PoolIndex} {name descriptor : String} {isInterface : Bool}
    (entry : pool.get? index = some (.methodRef ownerIndex member isInterface))
    (hOwner : pool.className? ownerIndex = some owner.text)
    (hMember : pool.nameAndType? member = some (name, descriptor)) :
    internMethodRef owner name descriptor isInterface pool = .ok index pool := by
  obtain ⟨nameIndex, descriptorIndex, both, hName, hDescriptor⟩ :=
    nameAndType?_eq_some_iff.mp hMember
  refine bind_of_ok (internClass_of_className? h hOwner) ?_
  refine bind_of_ok (internText_of_text? h hName) ?_
  refine bind_of_ok (internText_of_text? h hDescriptor) ?_
  exact bind_of_ok (intern_of_get? h both) (intern_of_get? h entry)

/-- A request for what is in the pool is answered with where it is, and changes nothing. No
room is needed for that. -/
theorem resolve_of_follow? (h : pool.Consistent) {request : PoolRequest}
    (found : pool.follow? index = some request.resolved) :
    resolve request pool = .ok index pool := by
  obtain ⟨constant, entry, denotes⟩ := follow?_eq_some_iff.mp found
  cases request with
  | utf8 text =>
      cases denotes
      exact internText_of_text? h (text?_eq_some_iff.mpr entry)
  | classInfo name =>
      cases denotes with
      | classInfo hText =>
          exact internClass_of_className? h (className?_eq_some_iff.mpr ⟨_, entry, hText⟩)
  | string text =>
      cases denotes with
      | string hText => exact bind_of_ok (internText_of_text? h hText) (intern_of_get? h entry)
  | methodType descriptor =>
      cases denotes with
      | methodType hText => exact bind_of_ok (internText_of_text? h hText) (intern_of_get? h entry)
  | integer value => cases denotes; exact intern_of_get? h entry
  | float value => cases denotes; exact intern_of_get? h entry
  | long value => cases denotes; exact intern_of_get? h entry
  | double value => cases denotes; exact intern_of_get? h entry
  | methodRef owner name descriptor isInterface =>
      cases denotes with
      | methodRef hOwner hMember => exact internMethodRef_of_methodRef h entry hOwner hMember

end Again

/-! ## Runs of requests -/

/-- What an operation answered, without the pool it left. -/
def answerOf {α : Type} : EStateM.Result PoolFault ConstantPool α → Except PoolFault α
  | .ok answer _ => .ok answer
  | .error fault _ => .error fault

/-- The pool an operation left, answered or refused. -/
def poolAfter {α : Type} : EStateM.Result PoolFault ConstantPool α → ConstantPool
  | .ok _ pool => pool
  | .error _ pool => pool

/-- One step of a run: the next request is made of the pool that the steps before left. -/
def proceed (state : Array (Except PoolFault PoolIndex) × ConstantPool) (request : PoolRequest) :
    Array (Except PoolFault PoolIndex) × ConstantPool :=
  (state.1.push (answerOf (resolve request state.2)), poolAfter (resolve request state.2))

theorem resolveAll_eq_foldl (requests : List PoolRequest) (pool : ConstantPool) :
    resolveAll requests pool = requests.foldl proceed (#[], pool) := by
  unfold resolveAll
  congr 1
  funext ⟨answers, pool⟩ request
  simp only [proceed]
  cases resolve request pool with
  | ok index pool => rfl
  | error fault pool => rfl

/-- Answers given before a run stay in front of those of the run. -/
theorem foldl_proceed (requests : List PoolRequest)
    (answers : Array (Except PoolFault PoolIndex)) (pool : ConstantPool) :
    requests.foldl proceed (answers, pool)
      = (answers ++ (resolveAll requests pool).1, (resolveAll requests pool).2) := by
  induction requests generalizing answers pool with
  | nil => simp [resolveAll]
  | cons request requests ih =>
      rw [resolveAll_eq_foldl, List.foldl_cons, List.foldl_cons, proceed, ih, proceed, ih]
      simp

/-- A run is its first request, then the run of the others on the pool that leaves. -/
theorem resolveAll_cons (request : PoolRequest) (requests : List PoolRequest)
    (pool : ConstantPool) :
    resolveAll (request :: requests) pool
      = (#[answerOf (resolve request pool)]
          ++ (resolveAll requests (poolAfter (resolve request pool))).1,
        (resolveAll requests (poolAfter (resolve request pool))).2) := by
  rw [resolveAll_eq_foldl, List.foldl_cons, proceed, foldl_proceed]
  rfl

/-- Every request of a run has its answer. -/
theorem size_resolveAll (requests : List PoolRequest) (pool : ConstantPool) :
    (resolveAll requests pool).1.size = requests.length := by
  induction requests generalizing pool with
  | nil => rfl
  | cons request requests ih =>
      rw [resolveAll_cons, Array.size_append, ih, List.length_cons, Nat.add_comm]
      rfl

theorem consistent_poolAfter {pool : ConstantPool} (h : pool.Consistent) (request : PoolRequest) :
    (poolAfter (resolve request pool)).Consistent ∧
      pool.Extends (poolAfter (resolve request pool)) := by
  have answers := resolve_answers h request
  unfold Answers at answers
  cases run : resolve request pool with
  | ok index after =>
      rw [run] at answers
      exact ⟨answers.1, answers.2.1⟩
  | error fault after =>
      rw [run] at answers
      exact answers

/-- A run leaves a consistent extension of the pool it started on. -/
theorem resolveAll_grows {pool : ConstantPool} (h : pool.Consistent)
    (requests : List PoolRequest) :
    (resolveAll requests pool).2.Consistent ∧ pool.Extends (resolveAll requests pool).2 := by
  induction requests generalizing pool with
  | nil => exact ⟨h, .refl pool⟩
  | cons request requests ih =>
      obtain ⟨consistent, grown⟩ := consistent_poolAfter h request
      rw [resolveAll_cons]
      exact ⟨(ih consistent).1, grown.trans (ih consistent).2⟩

/-- Whatever happens in the rest of a run, an index that was answered stands for what was
requested when the run ends. -/
theorem resolveAll_follow? {pool : ConstantPool} (h : pool.Consistent)
    {requests : List PoolRequest} {request : PoolRequest} {index : PoolIndex}
    (answered : (request, .ok index) ∈ requests.zip (resolveAll requests pool).1.toList) :
    (resolveAll requests pool).2.follow? index = some request.resolved := by
  induction requests generalizing pool with
  | nil => cases answered
  | cons first rest ih =>
      obtain ⟨consistent, _⟩ := consistent_poolAfter h first
      rw [resolveAll_cons] at answered ⊢
      rw [Array.toList_append, List.singleton_append, List.zip_cons_cons, List.mem_cons,
        Prod.mk.injEq] at answered
      rcases answered with ⟨rfl, now⟩ | later
      · have answers := resolve_answers h request
        unfold Answers at answers
        cases run : resolve request pool with
        | error fault after =>
            rw [run] at now
            cases now
        | ok found after =>
            rw [run] at now answers consistent
            cases now
            exact follow?_of_extends (resolveAll_grows consistent rest).2 answers.2.2
      · exact ih consistent later

/-- The pools that requests can lead to. -/
theorem consistent_resolveAll (requests : List PoolRequest) :
    (resolveAll requests ∅).2.Consistent :=
  (resolveAll_grows consistent_empty requests).1

/-- **Indices are permanent.** Every request of a run is answered or refused. If one was
answered with an index, then after any further requests the entry at the index, references
followed, is what was requested, and the same request is answered with the index again and
leaves the pool as it is. Two requests were answered with one index just if they were the
same request. -/
theorem index_permanent (requests later : List PoolRequest) :
    let run := resolveAll requests ∅
    let final := (resolveAll later run.2).2
    let answers := requests.zip run.1.toList
    run.1.size = requests.length ∧
    (∀ request index, (request, .ok index) ∈ answers →
      final.follow? index = some request.resolved ∧
        resolve request final = .ok index final) ∧
    (∀ a b i j, (a, .ok i) ∈ answers → (b, .ok j) ∈ answers → (i = j ↔ a = b)) := by
  intro run final answers
  have consistent : run.2.Consistent := consistent_resolveAll requests
  have grown := resolveAll_grows consistent later
  have stays : ∀ request index, (request, .ok index) ∈ answers →
      final.follow? index = some request.resolved := by
    intro request index answered
    exact follow?_of_extends grown.2 (resolveAll_follow? consistent_empty answered)
  have again : ∀ request index, (request, .ok index) ∈ answers →
      resolve request final = .ok index final := by
    intro request index answered
    exact resolve_of_follow? grown.1 (stays request index answered)
  refine ⟨size_resolveAll requests ∅, ?_, ?_⟩
  · intro request index answered
    exact ⟨stays request index answered, again request index answered⟩
  · intro a b i j hi hj
    constructor
    · rintro rfl
      have same := (stays a i hi).symm.trans (stays b i hj)
      exact PoolRequest.resolved_injective (Option.some.inj same)
    · rintro rfl
      have same := (again a i hi).symm.trans (again a j hj)
      cases same
      rfl

/-- The string is the second entry, after its text, and is found there again. -/
theorem index_permanent_string :
    (PoolRequest.string "hi", Except.ok ⟨2⟩) ∈
        [PoolRequest.string "hi", .long 7].zip
          (resolveAll [.string "hi", .long 7] ∅).1.toList ∧
      let final := (resolveAll [.utf8 "lo"] (resolveAll [.string "hi", .long 7] ∅).2).2
      final.follow? ⟨2⟩ = some (.string "hi") ∧
        resolve (.string "hi") final = .ok ⟨2⟩ final := by
  have answers : (resolveAll [.string "hi", .long 7] ∅).1 = #[.ok ⟨2⟩, .ok ⟨3⟩] := by cbv
  have answered : (PoolRequest.string "hi", Except.ok ⟨2⟩) ∈
      [PoolRequest.string "hi", .long 7].zip
        (resolveAll [.string "hi", .long 7] ∅).1.toList := by
    rw [answers]
    exact List.mem_cons_self
  obtain ⟨_, stays, _⟩ := index_permanent [.string "hi", .long 7] [.utf8 "lo"]
  exact ⟨answered, stays (.string "hi") ⟨2⟩ answered⟩

end ConstantPool

end JvmCode
