import JvmCode.Proofs.ConstantPool.Interning
import Mathlib.Data.List.Nodup
/-!
# What requests add to a pool

The indices in a pool tell in which order it was filled. What it holds, references followed, is
a list of `ResolvedConstant`s without indices, its *contents*. `Built` says how pools come
about: one entry at a time, each of them new, with room for it, and standing for a constant by
the entries before it. What is true of all pools that requests lead to is derived from that by
induction, above all that contents and entries determine each other.

A request asks for several entries in turn, its *parts*. It adds those that are missing and
stops at the first that cannot be added. `Enters` says so of an operation, in terms of the
contents alone, and is composed along the steps (`Enters.bind`).

## Main results

* `Built.consistent`, `Built.exists_denotes`: what is true of every pool that was built.
* `Built.exists_follow?_iff`, `Built.count_eq`, `Built.size_eq`: a pool by its contents.
* `resolve_enters`: what a request adds, answered or refused.
* `exists_built`: every pool that requests lead to was built from parts of the requests.
-/

namespace JvmCode

/-- How many indices an entry for the constant takes. -/
def ResolvedConstant.width : ResolvedConstant → Nat
  | long _ | double _ => 2
  | _ => 1

/-- What a request asks for, in order; what it is for comes last. -/
def PoolRequest.parts : PoolRequest → List ResolvedConstant
  | utf8 text => [.utf8 text]
  | classInfo name => [.utf8 name.text, .classInfo name.text]
  | string text => [.utf8 text, .string text]
  | integer value => [.integer value]
  | float value => [.float value]
  | long value => [.long value]
  | double value => [.double value]
  | methodRef owner name descriptor isInterface =>
    [.utf8 owner.text, .classInfo owner.text, .utf8 name, .utf8 descriptor,
      .nameAndType name descriptor, .methodRef owner.text name descriptor isInterface]
  | methodType descriptor => [.utf8 descriptor, .methodType descriptor]

namespace ConstantPool

/-! ## Entries and what they stand for -/

section Denotes

variable {pool : ConstantPool} {constant other : Constant} {resolved : ResolvedConstant}

theorem Denotes.width_eq (h : pool.Denotes constant resolved) :
    constant.width = resolved.width := by
  cases h <;> rfl

/-- An entry stands for one constant only. -/
theorem Denotes.unique {also : ResolvedConstant} (h : pool.Denotes constant resolved)
    (h' : pool.Denotes constant also) : resolved = also := by
  cases h <;> cases h' <;> simp_all

namespace Consistent

variable {i j : PoolIndex}

/-- An entry is at one index only. -/
theorem index_unique (h : pool.Consistent) (hi : pool.get? i = some constant)
    (hj : pool.get? j = some constant) : i = j := by
  have found := h.get?_eq_some_iff.mp hi
  rw [h.get?_eq_some_iff.mp hj] at found
  cases found
  rfl

theorem text_unique (h : pool.Consistent) {text : String} (hi : pool.text? i = some text)
    (hj : pool.text? j = some text) : i = j :=
  h.index_unique (text?_eq_some_iff.mp hi) (text?_eq_some_iff.mp hj)

theorem class_unique (h : pool.Consistent) {name : String} (hi : pool.className? i = some name)
    (hj : pool.className? j = some name) : i = j := by
  obtain ⟨m, entry, hText⟩ := className?_eq_some_iff.mp hi
  obtain ⟨n, entry', hText'⟩ := className?_eq_some_iff.mp hj
  obtain rfl := h.text_unique hText hText'
  exact h.index_unique entry entry'

theorem nameAndType_unique (h : pool.Consistent) {both : String × String}
    (hi : pool.nameAndType? i = some both) (hj : pool.nameAndType? j = some both) : i = j := by
  obtain ⟨_, _, entry, hName, hDescriptor⟩ := nameAndType?_eq_some_iff.mp hi
  obtain ⟨_, _, entry', hName', hDescriptor'⟩ := nameAndType?_eq_some_iff.mp hj
  obtain rfl := h.text_unique hName hName'
  obtain rfl := h.text_unique hDescriptor hDescriptor'
  exact h.index_unique entry entry'

/-- A constant is stood for by one entry only. -/
theorem denotes_injective (h : pool.Consistent) (hc : pool.Denotes constant resolved)
    (ho : pool.Denotes other resolved) : constant = other := by
  cases hc with
  | utf8 | integer | float | long | double => cases ho; rfl
  | classInfo hText => cases ho with | classInfo hText' => rw [h.text_unique hText hText']
  | string hText => cases ho with | string hText' => rw [h.text_unique hText hText']
  | methodType hText => cases ho with | methodType hText' => rw [h.text_unique hText hText']
  | nameAndType hName hDescriptor =>
      cases ho with
      | nameAndType hName' hDescriptor' =>
          rw [h.text_unique hName hName', h.text_unique hDescriptor hDescriptor']
  | methodRef hOwner hMember =>
      cases ho with
      | methodRef hOwner' hMember' =>
          rw [h.class_unique hOwner hOwner', h.nameAndType_unique hMember hMember']

theorem mem_constants_iff (h : pool.Consistent) :
    constant ∈ pool.constants.toList ↔ ∃ index, pool.interned[constant]? = some index := by
  constructor
  · intro member
    rw [← map_snd_indexed 1 pool.constants.toList] at member
    obtain ⟨⟨index, _⟩, listed, rfl⟩ := List.mem_map.mp member
    exact ⟨index, (h.interned_iff _ index).mpr (mem_entries_iff.mpr listed)⟩
  · rintro ⟨index, found⟩
    exact mem_constants_of_mem_entries ((h.interned_iff _ index).mp found)

end Consistent

end Denotes

/-! ## Growing contents -/

/-- Puts constants at the end of contents, one after the other, if they are missing there. -/
def grow (contents : List ResolvedConstant) : List ResolvedConstant → List ResolvedConstant
  | [] => contents
  | part :: parts => grow (if part ∈ contents then contents else contents ++ [part]) parts

/-- How many indices entries for the constants take. -/
def contentsWidth : List ResolvedConstant → Nat
  | [] => 0
  | resolved :: rest => resolved.width + contentsWidth rest

theorem contentsWidth_append_singleton (contents : List ResolvedConstant)
    (part : ResolvedConstant) :
    contentsWidth (contents ++ [part]) = contentsWidth contents + part.width := by
  induction contents with
  | nil => exact Nat.add_comm _ _
  | cons resolved rest ih => rw [List.cons_append, contentsWidth, contentsWidth, ih, Nat.add_assoc]

section Grow

variable {contents parts : List ResolvedConstant} {part : ResolvedConstant}

theorem grow_append (contents parts more : List ResolvedConstant) :
    grow contents (parts ++ more) = grow (grow contents parts) more := by
  induction parts generalizing contents with
  | nil => rfl
  | cons part parts ih => exact ih _

theorem grow_of_mem (h : part ∈ contents) : grow contents [part] = contents := by
  rw [grow, if_pos h, grow]

theorem grow_of_not_mem (h : part ∉ contents) : grow contents [part] = contents ++ [part] := by
  rw [grow, if_neg h, grow]

theorem mem_grow {constant : ResolvedConstant} :
    constant ∈ grow contents parts ↔ constant ∈ contents ∨ constant ∈ parts := by
  induction parts generalizing contents with
  | nil => simp [grow]
  | cons part parts ih =>
      rw [grow, ih, List.mem_cons]
      by_cases present : part ∈ contents
      · rw [if_pos present]
        constructor
        · rintro (old | new)
          · exact .inl old
          · exact .inr (.inr new)
        · rintro (old | rfl | new)
          · exact .inl old
          · exact .inl present
          · exact .inr new
      · rw [if_neg present, List.mem_append, List.mem_singleton, or_assoc]

end Grow

/-! ## How pools come about -/

theorem toList_constants_add (pool : ConstantPool) (added : Constant) :
    (pool.add added).constants.toList = pool.constants.toList ++ [added] :=
  Array.toList_push

theorem mem_constants_add {pool : ConstantPool} {constant added : Constant} :
    constant ∈ (pool.add added).constants.toList ↔
      constant ∈ pool.constants.toList ∨ constant = added := by
  rw [toList_constants_add, List.mem_append, List.mem_singleton]

/-- The pool was filled one entry at a time, each one standing for a constant by the entries
before it. -/
inductive Built : ConstantPool → List ResolvedConstant → Prop
  | empty : Built ∅ []
  | add {pool : ConstantPool} {contents : List ResolvedConstant} {constant : Constant}
      {resolved : ResolvedConstant} (before : Built pool contents)
      (denotes : pool.Denotes constant resolved) (missing : pool.interned[constant]? = none)
      (room : pool.count.toNat + constant.width ≤ limit) (fits : constant.TextFits) :
      Built (pool.add constant) (contents ++ [resolved])

namespace Built

variable {pool : ConstantPool} {contents : List ResolvedConstant} {constant : Constant}
  {resolved : ResolvedConstant}

theorem consistent (h : Built pool contents) : pool.Consistent := by
  induction h with
  | empty => exact consistent_empty
  | add _ _ missing room fits ih => exact ih.add missing room fits

theorem size_eq (h : Built pool contents) : pool.size = contents.length := by
  induction h with
  | empty => rfl
  | @add pool _ constant _ _ _ _ _ _ ih =>
      have one : (pool.add constant).size = pool.size + 1 := Array.size_push _
      rw [one, ih, List.length_append, List.length_singleton]

theorem slots_eq (h : Built pool contents) : pool.slots = contentsWidth contents := by
  induction h with
  | empty => rfl
  | @add pool contents constant resolved _ denotes _ _ _ ih =>
      show pool.slots + constant.width = contentsWidth (contents ++ [resolved])
      rw [contentsWidth_append_singleton, ih, denotes.width_eq]

theorem count_eq (h : Built pool contents) : pool.count.toNat = 1 + contentsWidth contents := by
  rw [h.consistent.count_toNat, h.slots_eq, Nat.add_comm]

/-- Every entry stands for a constant of the contents. -/
theorem exists_denotes (h : Built pool contents) (member : constant ∈ pool.constants.toList) :
    ∃ resolved ∈ contents, pool.Denotes constant resolved := by
  induction h with
  | empty => cases member
  | @add pool contents added resolved _ denotes _ _ _ ih =>
      have grown := pool.extends_add added
      rcases mem_constants_add.mp member with old | rfl
      · obtain ⟨found, listed, stands⟩ := ih old
        exact ⟨found, List.mem_append_left _ listed, stands.of_extends grown⟩
      · exact ⟨resolved, List.mem_append_right _ List.mem_cons_self, denotes.of_extends grown⟩

/-- Every constant of the contents is stood for by an entry. -/
theorem exists_constant (h : Built pool contents) (member : resolved ∈ contents) :
    ∃ constant ∈ pool.constants.toList, pool.Denotes constant resolved := by
  induction h with
  | empty => cases member
  | @add pool contents added _ _ denotes _ _ _ ih =>
      have grown := pool.extends_add added
      rcases List.mem_append.mp member with old | new
      · obtain ⟨constant, listed, stands⟩ := ih old
        exact ⟨constant, mem_constants_add.mpr (.inl listed), stands.of_extends grown⟩
      · obtain rfl := List.mem_singleton.mp new
        exact ⟨added, mem_constants_add.mpr (.inr rfl), denotes.of_extends grown⟩

/-- A constant that can be stood for is among the contents just if the entry for it is there. -/
theorem mem_contents_iff (h : Built pool contents) (denotes : pool.Denotes constant resolved) :
    resolved ∈ contents ↔ ∃ index, pool.interned[constant]? = some index := by
  rw [← h.consistent.mem_constants_iff]
  constructor
  · intro member
    obtain ⟨other, listed, stands⟩ := h.exists_constant member
    rwa [h.consistent.denotes_injective denotes stands]
  · intro member
    obtain ⟨other, listed, stands⟩ := h.exists_denotes member
    rwa [denotes.unique stands]

/-- The contents are what can be found in the pool. -/
theorem exists_follow?_iff (h : Built pool contents) :
    (∃ index, pool.follow? index = some resolved) ↔ resolved ∈ contents := by
  constructor
  · rintro ⟨index, found⟩
    obtain ⟨constant, entry, denotes⟩ := follow?_eq_some_iff.mp found
    exact (h.mem_contents_iff denotes).mpr ⟨index, h.consistent.get?_eq_some_iff.mp entry⟩
  · intro member
    obtain ⟨constant, listed, denotes⟩ := h.exists_constant member
    obtain ⟨index, isInterned⟩ := h.consistent.mem_constants_iff.mp listed
    have entry := h.consistent.get?_eq_some_iff.mpr isInterned
    exact ⟨index, follow?_eq_some_iff.mpr ⟨constant, entry, denotes⟩⟩

/-- An entry that is missing stands for a constant that is missing. -/
theorem not_mem_contents (h : Built pool contents) (denotes : pool.Denotes constant resolved)
    (missing : pool.interned[constant]? = none) : resolved ∉ contents := by
  intro member
  obtain ⟨index, found⟩ := (h.mem_contents_iff denotes).mp member
  rw [missing] at found
  cases found

/-- Nothing is held twice. -/
theorem nodup (h : Built pool contents) : contents.Nodup := by
  induction h with
  | empty => exact List.nodup_nil
  | @add pool contents constant resolved before denotes missing _ _ ih =>
      have new := before.not_mem_contents denotes missing
      exact ih.append (List.nodup_singleton _) (List.disjoint_singleton.mpr new)

/-- No entry is made twice. -/
theorem nodup_constants (h : Built pool contents) : pool.constants.toList.Nodup := by
  induction h with
  | empty => exact List.nodup_nil
  | @add pool _ constant _ before _ missing _ _ ih =>
      have new : constant ∉ pool.constants.toList := by
        intro member
        obtain ⟨index, found⟩ := before.consistent.mem_constants_iff.mp member
        rw [missing] at found
        cases found
      rw [toList_constants_add]
      exact ih.append (List.nodup_singleton _) (List.disjoint_singleton.mpr new)

/-- Texts are held only if they are short enough. -/
theorem text_le (h : Built pool contents) {text : String} (member : .utf8 text ∈ contents) :
    ModifiedUtf8.byteLength text ≤ limit := by
  obtain ⟨constant, listed, denotes⟩ := h.exists_constant member
  cases denotes
  exact (Constant.textFits_utf8_iff text).mp (h.consistent.textFits _ listed)

end Built

/-! ## Operations that enter parts -/

/-- Why the pool does not take a constant that it does not hold. -/
inductive Refuses (pool : ConstantPool) : ResolvedConstant → PoolFault → Prop
  | tooLong {text : String} (long : limit < ModifiedUtf8.byteLength text) :
      Refuses pool (.utf8 text) (.textTooLong (ModifiedUtf8.byteLength text))
  | full {constant : Constant} {resolved : ResolvedConstant}
      (denotes : pool.Denotes constant resolved)
      (noRoom : limit < pool.count.toNat + constant.width) :
      Refuses pool resolved (.overflow constant pool.count)

/-- From this pool the operation adds the parts to the contents, one after the other. Either all
of them are there in the end, and what it answers is right, or it is refused a missing one. -/
def Enters {α : Type} (start : ConstantPool) (contents parts : List ResolvedConstant)
    (operation : PoolM α) (right : α → ConstantPool → Prop) : Prop :=
  match operation start with
  | .ok answer pool =>
    start.Extends pool ∧ Built pool (grow contents parts) ∧ right answer pool
  | .error fault pool =>
    start.Extends pool ∧ ∃ entered part rest, parts = entered ++ part :: rest ∧
      Built pool (grow contents entered) ∧ part ∉ grow contents entered ∧ Refuses pool part fault

namespace Enters

variable {α β : Type} {start : ConstantPool} {contents parts more : List ResolvedConstant}

/-- Two operations in turn enter the parts of the first and then those of the second. -/
theorem bind {first : PoolM α} {next : α → PoolM β} {between : α → ConstantPool → Prop}
    {right : β → ConstantPool → Prop} (h : Enters start contents parts first between)
    (rest : ∀ answer pool, start.Extends pool → Built pool (grow contents parts) →
      between answer pool → Enters pool (grow contents parts) more (next answer) right) :
    Enters start contents (parts ++ more) (first >>= next) right := by
  show match EStateM.bind first next start with
    | .ok answer pool => _
    | .error fault pool => _
  unfold EStateM.bind
  unfold Enters at h
  cases run : first start with
  | error fault pool =>
      rw [run] at h
      obtain ⟨grown, entered, part, left, rfl, refused⟩ := h
      refine ⟨grown, entered, part, left ++ more, ?_, refused⟩
      rw [List.append_assoc, List.cons_append]
  | ok answer pool =>
      rw [run] at h
      obtain ⟨grown, built, found⟩ := h
      have later := rest answer pool grown built found
      unfold Enters at later
      simp only
      cases further : next answer pool with
      | ok result last =>
          rw [further] at later
          obtain ⟨grownMore, builtMore, isRight⟩ := later
          rw [← grow_append] at builtMore
          exact ⟨grown.trans grownMore, builtMore, isRight⟩
      | error fault last =>
          rw [further] at later
          obtain ⟨grownMore, entered, part, left, rfl, builtMore, missing, refused⟩ := later
          rw [← grow_append] at builtMore missing
          exact ⟨grown.trans grownMore, parts ++ entered, part, left,
            (List.append_assoc _ _ _).symm, builtMore, missing, refused⟩

/-- The same operation with something else said about what it answers. -/
theorem mono {operation : PoolM α} {right other : α → ConstantPool → Prop}
    (h : Enters start contents parts operation right)
    (implies : ∀ answer pool, start.Extends pool → right answer pool → other answer pool) :
    Enters start contents parts operation other := by
  unfold Enters at h ⊢
  cases run : operation start with
  | error fault pool =>
      rw [run] at h
      exact h
  | ok answer pool =>
      rw [run] at h
      exact ⟨h.1, h.2.1, implies answer pool h.1 h.2.2⟩

end Enters

section Requests

variable {pool : ConstantPool} {contents : List ResolvedConstant}

theorem intern_enters (h : Built pool contents) {constant : Constant}
    {resolved : ResolvedConstant} (denotes : pool.Denotes constant resolved)
    (fits : constant.TextFits) :
    Enters pool contents [resolved] (intern constant) fun index after =>
      after.get? index = some constant := by
  have answers := intern_answers h.consistent fits
  unfold Answers at answers
  unfold Enters
  cases found : pool.interned[constant]? with
  | some index =>
      have present := (h.mem_contents_iff denotes).mpr ⟨index, found⟩
      rw [intern_of_interned found] at answers ⊢
      rw [grow_of_mem present]
      exact ⟨.refl pool, h, answers.2.2⟩
  | none =>
      have absent := h.not_mem_contents denotes found
      by_cases room : pool.count.toNat + constant.width ≤ limit
      · have run : intern constant pool = .ok ⟨pool.count⟩ (pool.add constant) := by
          rw [intern, found]
          exact if_pos room
        rw [run] at answers ⊢
        rw [grow_of_not_mem absent]
        exact ⟨answers.2.1, h.add denotes found room fits, answers.2.2⟩
      · have run : intern constant pool = .error (.overflow constant pool.count) pool := by
          rw [intern, found]
          exact if_neg room
        rw [run]
        exact ⟨.refl pool, [], resolved, [], rfl, h, absent,
          .full denotes (Nat.lt_of_not_le room)⟩

theorem internText_enters (h : Built pool contents) (text : String) :
    Enters pool contents [.utf8 text] (internText text) fun index after =>
      after.text? index = some text := by
  unfold internText
  by_cases short : ModifiedUtf8.byteLength text ≤ limit
  · rw [if_pos short]
    have fits := (Constant.textFits_utf8_iff text).mpr short
    refine (intern_enters h (.utf8 text) fits).mono fun index after _ found => ?_
    exact text?_eq_some_iff.mpr found
  · rw [if_neg short]
    have missing : .utf8 text ∉ contents := fun member => short (h.text_le member)
    exact ⟨.refl pool, [], .utf8 text, [], rfl, h, missing, .tooLong (Nat.lt_of_not_le short)⟩

theorem internClass_enters (h : Built pool contents) (name : BinaryName) :
    Enters pool contents [.utf8 name.text, .classInfo name.text] (internClass name)
      fun index after => after.className? index = some name.text := by
  refine (internText_enters h name.text).bind fun text after _ built hText => ?_
  refine (intern_enters built (.classInfo hText) trivial).mono fun index later grown found => ?_
  exact className?_eq_some_iff.mpr ⟨text, found, text?_of_extends grown hText⟩

theorem internMethodRef_enters (h : Built pool contents) (owner : BinaryName)
    (name descriptor : String) (isInterface : Bool) :
    Enters pool contents (PoolRequest.methodRef owner name descriptor isInterface).parts
      (internMethodRef owner name descriptor isInterface) fun _ _ => True := by
  refine (internClass_enters h owner).bind fun ownerIndex _ _ h₁ hOwner => ?_
  refine (internText_enters h₁ name).bind fun nameIndex _ grown₂ h₂ hName => ?_
  refine (internText_enters h₂ descriptor).bind fun descriptorIndex _ grown₃ h₃ hDescriptor => ?_
  have hName₃ := text?_of_extends grown₃ hName
  refine (intern_enters h₃ (.nameAndType hName₃ hDescriptor) trivial).bind
    fun member _ grown₄ h₄ entry => ?_
  have hMember := nameAndType?_eq_some_iff.mpr
    ⟨_, _, entry, text?_of_extends grown₄ hName₃, text?_of_extends grown₄ hDescriptor⟩
  have hOwner₄ := className?_of_extends (grown₂.trans (grown₃.trans grown₄)) hOwner
  exact (intern_enters h₄ (.methodRef hOwner₄ hMember) trivial).mono fun _ _ _ _ => trivial

/-- A request adds its parts, up to the first that the pool refuses. -/
theorem resolve_enters (h : Built pool contents) (request : PoolRequest) :
    Enters pool contents request.parts (resolve request) fun _ _ => True := by
  have value : ∀ {constant : Constant} {resolved : ResolvedConstant},
      pool.Denotes constant resolved → constant.TextFits →
      Enters pool contents [resolved] (intern constant) fun _ _ => True := by
    intro constant resolved denotes fits
    exact (intern_enters h denotes fits).mono fun _ _ _ _ => trivial
  cases request with
  | utf8 text => exact (internText_enters h text).mono fun _ _ _ _ => trivial
  | classInfo name => exact (internClass_enters h name).mono fun _ _ _ _ => trivial
  | string text =>
      refine (internText_enters h text).bind fun index after _ built hText => ?_
      exact (intern_enters built (.string hText) trivial).mono fun _ _ _ _ => trivial
  | methodType descriptor =>
      refine (internText_enters h descriptor).bind fun index after _ built hText => ?_
      exact (intern_enters built (.methodType hText) trivial).mono fun _ _ _ _ => trivial
  | integer number => exact value (.integer number) trivial
  | float number => exact value (.float number) trivial
  | long number => exact value (.long number) trivial
  | double number => exact value (.double number) trivial
  | methodRef owner name descriptor isInterface =>
      exact internMethodRef_enters h owner name descriptor isInterface

end Requests

/-! ## Runs of requests -/

/-- After a request the contents are those before and the parts that were entered. -/
theorem Built.exists_poolAfter {pool : ConstantPool} {contents : List ResolvedConstant}
    (h : Built pool contents) (request : PoolRequest) :
    ∃ entered, entered <+: request.parts ∧
      Built (poolAfter (resolve request pool)) (grow contents entered) := by
  have enters := resolve_enters h request
  unfold Enters at enters
  cases run : resolve request pool with
  | ok index after =>
      rw [run] at enters
      exact ⟨request.parts, List.prefix_refl _, enters.2.1⟩
  | error fault after =>
      rw [run] at enters
      obtain ⟨_, entered, part, rest, cut, built, _⟩ := enters
      exact ⟨entered, ⟨part :: rest, cut.symm⟩, built⟩

/-- A run that starts on a built pool leaves one, and what is new in its contents was asked for
by some request of the run. -/
theorem Built.exists_resolveAll {pool : ConstantPool} {contents : List ResolvedConstant}
    (h : Built pool contents) (requests : List PoolRequest) :
    ∃ final, Built (resolveAll requests pool).2 final ∧
      ∀ constant ∈ final, constant ∈ contents ∨ ∃ request ∈ requests, constant ∈ request.parts := by
  induction requests generalizing pool contents with
  | nil => exact ⟨contents, h, fun _ member => .inl member⟩
  | cons request requests ih =>
      obtain ⟨entered, inParts, built⟩ := h.exists_poolAfter request
      obtain ⟨final, builtFinal, origin⟩ := ih built
      rw [resolveAll_cons]
      refine ⟨final, builtFinal, fun constant member => ?_⟩
      rcases origin constant member with before | ⟨other, listed, own⟩
      · rcases mem_grow.mp before with old | new
        · exact .inl old
        · exact .inr ⟨request, List.mem_cons_self, inParts.subset new⟩
      · exact .inr ⟨other, List.mem_cons_of_mem _ listed, own⟩

/-- Every pool that requests lead to, answered or refused, was filled one entry at a time, and
all it holds was asked for. -/
theorem exists_built (requests : List PoolRequest) :
    ∃ contents, Built (resolveAll requests ∅).2 contents ∧
      ∀ constant ∈ contents, ∃ request ∈ requests, constant ∈ request.parts := by
  obtain ⟨contents, built, origin⟩ := Built.empty.exists_resolveAll requests
  refine ⟨contents, built, fun constant member => ?_⟩
  exact (origin constant member).resolve_left List.not_mem_nil

end ConstantPool

end JvmCode
