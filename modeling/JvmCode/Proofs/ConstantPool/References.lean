import JvmCode.Proofs.ConstantPool.Contents
import Mathlib.Data.List.Permutation
/-!
# References between entries

Entries that refer to others are made after them, one step of a request after the other, so a
reference always goes back to an entry that is there. `Grounded` says what an entry finds in
front of it: entries of the kinds it refers to, at smaller indices, and for a class the text of
a valid name. A new entry is grounded because it stands for a constant by the entries before it
(`Denotes.grounded`), and stays so as the pool grows. Requests that are refused half way make no
difference, for what they leave behind was made in the same order.

## Main results

* `Denotes.grounded`: a new entry is grounded at the first free index.
* `Built.grounded`: so are all entries of a pool that was built.
* `references_grounded`: so are all entries of the pools that requests lead to.
-/

namespace JvmCode

/-- If the constant is a class, its name is a valid one. -/
def ResolvedConstant.Named : ResolvedConstant → Prop
  | classInfo name => ∃ valid : BinaryName, valid.text = name
  | _ => True

/-- Requests ask for classes by valid names only. -/
theorem PoolRequest.named_of_mem_parts {request : PoolRequest} {part : ResolvedConstant}
    (member : part ∈ request.parts) : part.Named := by
  cases part with
  | classInfo name =>
      cases request <;> simp only [parts, List.mem_cons, List.not_mem_nil, reduceCtorEq, or_false,
        false_or, ResolvedConstant.classInfo.injEq] at member
      case classInfo valid => exact ⟨valid, member.symm⟩
      case methodRef owner _ _ _ => exact ⟨owner, member.symm⟩
  | _ => trivial

namespace ConstantPool

/-! ## Grounded entries -/

/-- The pool holds the constant at a place before the index. -/
def HoldsBefore (pool : ConstantPool) (index place : PoolIndex) (constant : Constant) : Prop :=
  place.val < index.val ∧ (place, constant) ∈ pool.entries

/-- An entry at the index finds before it what it refers to. Texts are short enough to be
written. -/
def Grounded (pool : ConstantPool) (index : PoolIndex) : Constant → Prop
  | .utf8 text => (ModifiedUtf8.encode text).length ≤ 65535
  | .classInfo name => ∃ valid : BinaryName, pool.HoldsBefore index name (.utf8 valid.text)
  | .string text => ∃ content, pool.HoldsBefore index text (.utf8 content)
  | .methodType descriptor => ∃ content, pool.HoldsBefore index descriptor (.utf8 content)
  | .nameAndType name descriptor =>
    (∃ content, pool.HoldsBefore index name (.utf8 content)) ∧
      ∃ content, pool.HoldsBefore index descriptor (.utf8 content)
  | .methodRef owner member _ =>
    (∃ name, pool.HoldsBefore index owner (.classInfo name)) ∧
      ∃ name descriptor, pool.HoldsBefore index member (.nameAndType name descriptor)
  | .integer _ | .float _ | .long _ | .double _ => True

section Growing

variable {pool later : ConstantPool} {index place : PoolIndex} {constant : Constant}

theorem mem_entries_of_extends (h : pool.Extends later)
    (listed : (index, constant) ∈ pool.entries) : (index, constant) ∈ later.entries := by
  obtain ⟨added, grown⟩ := h
  rw [mem_entries_iff] at listed ⊢
  rw [← grown, indexed_append]
  exact List.mem_append_left _ listed

theorem HoldsBefore.of_extends (h : pool.Extends later)
    (holds : pool.HoldsBefore index place constant) : later.HoldsBefore index place constant :=
  ⟨holds.1, mem_entries_of_extends h holds.2⟩

/-- What an entry refers to stays where it is as the pool grows. -/
theorem Grounded.of_extends (h : pool.Extends later) (grounded : pool.Grounded index constant) :
    later.Grounded index constant := by
  cases constant with
  | utf8 text => exact grounded
  | classInfo name =>
      obtain ⟨valid, holds⟩ := grounded
      exact ⟨valid, holds.of_extends h⟩
  | string text =>
      obtain ⟨content, holds⟩ := grounded
      exact ⟨content, holds.of_extends h⟩
  | methodType descriptor =>
      obtain ⟨content, holds⟩ := grounded
      exact ⟨content, holds.of_extends h⟩
  | nameAndType name descriptor =>
      obtain ⟨⟨content, holds⟩, content', holds'⟩ := grounded
      exact ⟨⟨content, holds.of_extends h⟩, content', holds'.of_extends h⟩
  | methodRef owner member isInterface =>
      obtain ⟨⟨name, holds⟩, name', descriptor, holds'⟩ := grounded
      exact ⟨⟨name, holds.of_extends h⟩, name', descriptor, holds'.of_extends h⟩
  | integer | float | long | double => trivial

/-- What is found in a pool lies before its first free index. -/
theorem Consistent.holdsBefore_count (h : pool.Consistent)
    (found : pool.get? place = some constant) :
    pool.HoldsBefore ⟨pool.count⟩ place constant := by
  have listed := (ConstantPool.get?_eq_some_iff h.totalWidth_lt).mp found
  have small := h.totalWidth_lt
  have inside := (bounds_of_mem_indexed (by omega) (mem_entries_iff.mp listed)).2
  have wide := constant.width_pos
  have count := h.count_toNat
  have slots := h.slots_eq
  refine ⟨?_, listed⟩
  rw [UInt16.lt_iff_toNat_lt]
  show place.val.toNat < pool.count.toNat
  omega

end Growing

/-! ## New entries -/

section New

variable {pool : ConstantPool} {contents : List ResolvedConstant}

/-- An entry that stands for a constant is grounded at the first free index. -/
theorem Denotes.grounded {constant : Constant} {resolved : ResolvedConstant}
    (denotes : pool.Denotes constant resolved) (h : pool.Consistent) (named : resolved.Named)
    (fits : constant.TextFits) : pool.Grounded ⟨pool.count⟩ constant := by
  have text : ∀ {place : PoolIndex} {content : String}, pool.text? place = some content →
      pool.HoldsBefore ⟨pool.count⟩ place (.utf8 content) := by
    intro place content found
    exact h.holdsBefore_count (text?_eq_some_iff.mp found)
  cases denotes with
  | utf8 => exact fits
  | classInfo hText =>
      obtain ⟨valid, rfl⟩ := named
      exact ⟨valid, text hText⟩
  | string hText => exact ⟨_, text hText⟩
  | methodType hText => exact ⟨_, text hText⟩
  | nameAndType hName hDescriptor => exact ⟨⟨_, text hName⟩, _, text hDescriptor⟩
  | methodRef hOwner hMember =>
      obtain ⟨_, owner, _⟩ := className?_eq_some_iff.mp hOwner
      obtain ⟨_, _, member, _⟩ := nameAndType?_eq_some_iff.mp hMember
      exact ⟨⟨_, h.holdsBefore_count owner⟩, _, _, h.holdsBefore_count member⟩
  | integer | float | long | double => trivial

/-- All entries of a pool are grounded if all classes in it have valid names. -/
theorem Built.grounded (h : Built pool contents) (named : ∀ resolved ∈ contents, resolved.Named)
    {index : PoolIndex} {constant : Constant} (listed : (index, constant) ∈ pool.entries) :
    pool.Grounded index constant := by
  induction h with
  | empty => exact absurd (mem_entries_iff.mp listed) List.not_mem_nil
  | @add pool contents added resolved before denotes missing room fits ih =>
      obtain ⟨namedBefore, namedNew⟩ := List.forall_mem_append.mp named
      have grown := pool.extends_add added
      rcases before.consistent.mem_entries_add_iff.mp listed with old | ⟨rfl, rfl⟩
      · exact (ih namedBefore old).of_extends grown
      · have isNamed := namedNew resolved List.mem_cons_self
        exact (denotes.grounded before.consistent isNamed fits).of_extends grown

end New

/-- **References go back to what is there.** In every pool that requests lead to, also where some
of them were refused half way, each reference of an entry is to a smaller index, where an entry
of the kind it asks for starts: a class, a string and a method type refer to a text, a name and
type to two texts, and a method to a class and a name and type. The text that a class refers to
is a valid name, and every text is encoded in at most 65535 bytes. -/
theorem references_grounded (requests : List PoolRequest) :
    let pool := (resolveAll requests ∅).2
    ∀ index constant, (index, constant) ∈ pool.entries → pool.Grounded index constant := by
  intro pool index constant listed
  obtain ⟨contents, built, origin⟩ := exists_built requests
  have named : ∀ resolved ∈ contents, resolved.Named := by
    intro resolved member
    obtain ⟨request, _, part⟩ := origin resolved member
    exact request.named_of_mem_parts part
  exact built.grounded named listed

/-- A method whose name a string request put there before, after a `long`. Its references skip
index 2, the second one of the `long`, where no entry starts. -/
theorem references_grounded_method :
    let requests : List PoolRequest :=
      [.long 1, .string "run", .methodRef ⟨"A", by decide⟩ "run" "()V" false]
    let pool := (resolveAll requests ∅).2
    (⟨6⟩, .classInfo ⟨5⟩) ∈ pool.entries ∧ (⟨9⟩, .methodRef ⟨6⟩ ⟨8⟩ false) ∈ pool.entries ∧
      (∃ valid : BinaryName, pool.HoldsBefore ⟨6⟩ ⟨5⟩ (.utf8 valid.text)) ∧
      (∃ name, pool.HoldsBefore ⟨9⟩ ⟨6⟩ (.classInfo name)) ∧
      (∃ name descriptor, pool.HoldsBefore ⟨9⟩ ⟨8⟩ (.nameAndType name descriptor)) := by
  intro requests pool
  have constants : pool.constants.toList =
      [.long 1, .utf8 "run", .string ⟨3⟩, .utf8 "A", .classInfo ⟨5⟩, .utf8 "()V",
        .nameAndType ⟨3⟩ ⟨7⟩, .methodRef ⟨6⟩ ⟨8⟩ false] := by
    simp only [pool, requests]
    cbv
  have class_ : (⟨6⟩, .classInfo ⟨5⟩) ∈ pool.entries := by
    rw [mem_entries_iff, constants]
    decide
  have method : (⟨9⟩, .methodRef ⟨6⟩ ⟨8⟩ false) ∈ pool.entries := by
    rw [mem_entries_iff, constants]
    decide
  obtain ⟨owner, member⟩ := references_grounded requests _ _ method
  exact ⟨class_, method, references_grounded requests _ _ class_, owner, member⟩

end ConstantPool

end JvmCode
