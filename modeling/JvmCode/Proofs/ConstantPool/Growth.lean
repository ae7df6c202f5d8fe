import JvmCode.Proofs.ConstantPool.Contents
/-!
# How far a request grows a pool

A request asks for up to six entries, and some of them may be in the pool already. Those that
are not are *missing*: each of them once, also where two texts of the request are the same. What
a request does to a pool follows from the missing entries alone. It needs room for all of them,
two indices for each wide one, and it adds them in order until one of them cannot be added.

That everything missing has room is said before anything is added, of the pool as it is; that
an entry is refused is found out later, in the pool as it has become. The two are the same
because contents only grow by what was missing (`grow_eq_append`).

## Main results

* `Built.contents_eq`: the contents that a pool was built with are those listed in it.
* `Built.resolve_ok_iff`: a request is answered just if its texts are short and the missing
  entries have room.
* `resolve_grows_by_missing`: what a request adds to a pool, answered or refused, and how it is
  refused.
-/

namespace JvmCode

namespace ConstantPool

/-! ## What is missing -/

/-- The constants in a pool, references followed, in the order of their indices. -/
def contents (pool : ConstantPool) : List ResolvedConstant :=
  pool.entries.toList.filterMap fun entry => pool.follow? entry.1

/-- What a request asks for that is not in the pool, in the order it asks, each part once. -/
def missing (pool : ConstantPool) (request : PoolRequest) : List ResolvedConstant :=
  (request.parts.filter (· ∉ pool.contents)).eraseDups

/-- The later pool has all entries of the earlier one, with their indices, and after them one
for each of the constants, in order. -/
def GrowsBy (pool : ConstantPool) (added : List ResolvedConstant) (later : ConstantPool) : Prop :=
  ∃ entries, later.entries.toList = pool.entries.toList ++ entries ∧
    entries.map (fun entry => later.follow? entry.1) = added.map some

theorem contentsWidth_append (contents more : List ResolvedConstant) :
    contentsWidth (contents ++ more) = contentsWidth contents + contentsWidth more := by
  induction contents with
  | nil => exact (Nat.zero_add _).symm
  | cons resolved rest ih => rw [List.cons_append, contentsWidth, contentsWidth, ih, Nat.add_assoc]

/-- Contents grow at the end, by what is not among them. A part that comes again is found among
those just added, which is what erasing duplicates amounts to. -/
theorem grow_eq_append (contents parts : List ResolvedConstant) :
    grow contents parts = contents ++ (parts.filter (· ∉ contents)).eraseDups := by
  induction parts generalizing contents with
  | nil => exact (List.append_nil contents).symm
  | cons part parts ih =>
      rw [grow]
      by_cases present : part ∈ contents
      · rw [if_pos present, ih, List.filter_cons_of_neg (by simpa using present)]
      · have later : parts.filter (· ∉ contents ++ [part])
            = (parts.filter (· ∉ contents)).filter fun other => !other == part := by
          rw [List.filter_filter]
          refine List.filter_congr fun other _ => ?_
          simp [and_comm, beq_eq_decide]
        rw [if_neg present, ih, later, List.filter_cons_of_pos (by simpa using present),
          List.eraseDups_cons, List.append_assoc, List.singleton_append]

theorem contentsWidth_grow_le (contents parts : List ResolvedConstant) :
    contentsWidth (grow contents parts) ≤ contentsWidth contents + contentsWidth parts := by
  induction parts generalizing contents with
  | nil => exact Nat.le_refl _
  | cons part parts ih =>
      rw [grow, contentsWidth]
      by_cases present : part ∈ contents
      · have rest := ih contents
        rw [if_pos present]
        omega
      · have rest := ih (contents ++ [part])
        rw [contentsWidth_append_singleton] at rest
        rw [if_neg present]
        omega

/-! ## Entries of a pool that grows -/

theorem entries_of_extends {pool later : ConstantPool} (h : pool.Extends later) :
    pool.entries.toList <+: later.entries.toList := by
  obtain ⟨added, grown⟩ := h
  rw [entries_eq_indexed, entries_eq_indexed, ← grown, indexed_append]
  exact List.prefix_append _ _

theorem Consistent.toList_entries_add {pool : ConstantPool} (h : pool.Consistent)
    (added : Constant) :
    (pool.add added).entries.toList = pool.entries.toList ++ [(⟨pool.count⟩, added)] := by
  rw [entries_eq_indexed, entries_eq_indexed, toList_constants_add, indexed_append, indexed,
    indexed, count, h.slots_eq, Nat.add_comm]

namespace Built

variable {pool later : ConstantPool} {contents added : List ResolvedConstant}

/-- Where a pool has its entries, every later pool has what the earlier one was built with. -/
theorem map_follow? (h : Built pool contents) (grown : pool.Extends later) :
    pool.entries.toList.map (fun entry => later.follow? entry.1) = contents.map some := by
  induction h with
  | empty => rfl
  | @add pool contents constant resolved before denotes missing room fits ih =>
      have after := before.consistent.add missing room fits
      have entry : (pool.add constant).get? ⟨pool.count⟩ = some constant := by
        refine (ConstantPool.get?_eq_some_iff after.totalWidth_lt).mpr ?_
        exact before.consistent.mem_entries_add_iff.mpr (.inr ⟨rfl, rfl⟩)
      have stands := denotes.of_extends (pool.extends_add constant)
      have found : later.follow? ⟨pool.count⟩ = some resolved :=
        follow?_of_extends grown (follow?_eq_some_iff.mpr ⟨constant, entry, stands⟩)
      rw [before.consistent.toList_entries_add, List.map_append, List.map_append,
        ih ((pool.extends_add constant).trans grown), List.map_singleton, found,
        List.map_singleton]

/-- What a pool was built with is what can be read off its entries. -/
theorem contents_eq (h : Built pool contents) : pool.contents = contents := by
  have listed := h.map_follow? (.refl pool)
  have all := congrArg (List.filterMap id) listed
  rw [List.filterMap_map, List.filterMap_map] at all
  exact all.trans (List.filterMap_some)

theorem growsBy (h : Built pool contents) (grown : pool.Extends later)
    (after : Built later (contents ++ added)) : pool.GrowsBy added later := by
  obtain ⟨entries, listed⟩ := entries_of_extends grown
  refine ⟨entries, listed.symm, ?_⟩
  have all := after.map_follow? (.refl later)
  rw [← listed, List.map_append, h.map_follow? grown, List.map_append] at all
  exact List.append_cancel_left all

/-- The contents after a request that was answered. -/
theorem grow_parts (h : Built pool contents) (request : PoolRequest) :
    grow contents request.parts = contents ++ pool.missing request := by
  rw [grow_eq_append, missing, h.contents_eq]

/-- If all of a request up to one of its parts was entered and that part was not there yet, the
missing entries are those that were added, then the part, then others. -/
theorem missing_of_entered (h : Built pool contents) {request : PoolRequest}
    {entered rest : List ResolvedConstant} {part : ResolvedConstant}
    (cut : request.parts = entered ++ part :: rest) (absent : part ∉ grow contents entered) :
    ∃ added others, grow contents entered = contents ++ added ∧
      pool.missing request = added ++ part :: others := by
  have all := h.grow_parts request
  rw [cut, grow_append, grow, if_neg absent, grow_eq_append (grow contents entered ++ [part]),
    grow_eq_append contents entered, List.append_assoc, List.append_assoc] at all
  exact ⟨_, _, grow_eq_append contents entered, (List.append_cancel_left all).symm⟩

end Built

/-! ## What was refused -/

/-- Whatever the operation finds no room for is an entry that could be written. -/
def OverflowsFitting {α : Type} (operation : PoolM α) : Prop :=
  ∀ ⦃pool after : ConstantPool⦄ ⦃constant : Constant⦄ ⦃offset : UInt16⦄,
    operation pool = .error (.overflow constant offset) after → constant.TextFits

namespace OverflowsFitting

theorem bind {α β : Type} {first : PoolM α} {next : α → PoolM β} (h : OverflowsFitting first)
    (rest : ∀ answer, OverflowsFitting (next answer)) : OverflowsFitting (first >>= next) := by
  intro pool after constant offset run
  change EStateM.bind first next pool = _ at run
  unfold EStateM.bind at run
  cases start : first pool with
  | ok answer between =>
      rw [start] at run
      exact rest answer run
  | error fault between =>
      rw [start] at run
      cases run
      exact h start

theorem intern {constant : Constant} (fits : constant.TextFits) :
    OverflowsFitting (intern constant) := by
  intro pool after other offset run
  obtain ⟨_, _, same, _⟩ := intern_eq_error_iff.mp run
  cases same
  exact fits

theorem internText (text : String) : OverflowsFitting (internText text) := by
  unfold ConstantPool.internText
  by_cases short : ModifiedUtf8.byteLength text ≤ limit
  · rw [if_pos short]
    exact .intern ((Constant.textFits_utf8_iff text).mpr short)
  · rw [if_neg short]
    intro pool after constant offset run
    cases run

theorem internClass (name : BinaryName) : OverflowsFitting (internClass name) :=
  (internText name.text).bind fun _ => .intern trivial

/-- Texts are measured before room is looked for. -/
theorem resolve (request : PoolRequest) : OverflowsFitting (resolve request) := by
  cases request with
  | utf8 text => exact internText text
  | classInfo name => exact internClass name
  | string text => exact (internText text).bind fun _ => .intern trivial
  | methodType descriptor => exact (internText descriptor).bind fun _ => .intern trivial
  | integer | float | long | double => exact .intern trivial
  | methodRef owner name descriptor isInterface =>
      refine (internClass owner).bind fun _ => ?_
      refine (internText name).bind fun _ => ?_
      refine (internText descriptor).bind fun _ => ?_
      exact OverflowsFitting.bind (.intern trivial) fun _ => .intern trivial

end OverflowsFitting

/-! ## Requests -/

namespace Built

variable {pool after : ConstantPool} {contents : List ResolvedConstant} {request : PoolRequest}

/-- A request that is answered leaves everything there that was missing. -/
theorem resolve_ok (h : Built pool contents) {index : PoolIndex}
    (run : resolve request pool = .ok index after) :
    pool.Extends after ∧ Built after (contents ++ pool.missing request) := by
  have enters := resolve_enters h request
  unfold Enters at enters
  rw [run] at enters
  obtain ⟨grown, built, _⟩ := enters
  rw [h.grow_parts] at built
  exact ⟨grown, built⟩

/-- A request that is refused leaves what was missing before the entry that was refused. -/
theorem resolve_error (h : Built pool contents) {fault : PoolFault}
    (run : resolve request pool = .error fault after) :
    ∃ added refused rest, pool.missing request = added ++ refused :: rest ∧
      refused ∈ request.parts ∧ pool.Extends after ∧ Built after (contents ++ added) ∧
      Refuses after refused fault := by
  have enters := resolve_enters h request
  unfold Enters at enters
  rw [run] at enters
  obtain ⟨grown, entered, refused, rest, cut, built, absent, why⟩ := enters
  obtain ⟨added, others, grew, missing⟩ := h.missing_of_entered cut absent
  rw [grew] at built
  have part : refused ∈ request.parts := by
    rw [cut]
    exact List.mem_append_right _ List.mem_cons_self
  exact ⟨added, refused, others, missing, part, grown, built, why⟩

/-- A request is answered just if none of its texts is too long and all that is missing has
room. -/
theorem resolve_ok_iff (h : Built pool contents) :
    (∃ index after, resolve request pool = .ok index after) ↔
      (∀ text, .utf8 text ∈ request.parts → (ModifiedUtf8.encode text).length ≤ 65535) ∧
        pool.count.toNat + contentsWidth (pool.missing request) ≤ 65535 := by
  constructor
  · rintro ⟨index, after, run⟩
    obtain ⟨_, built⟩ := h.resolve_ok run
    have counted := built.count_eq
    have bound := built.consistent.slots_lt
    rw [built.slots_eq, limit] at bound
    rw [contentsWidth_append] at bound
    refine ⟨fun text part => ?_, ?_⟩
    · have held : .utf8 text ∈ contents ++ pool.missing request := by
        rw [← h.grow_parts]
        exact mem_grow.mpr (.inr part)
      rw [← ModifiedUtf8.byteLength_eq]
      exact built.text_le held
    · rw [h.count_eq]
      omega
  · rintro ⟨short, room⟩
    cases run : resolve request pool with
    | ok index after => exact ⟨index, after, rfl⟩
    | error fault after =>
        obtain ⟨added, refused, rest, missing, part, _, built, why⟩ := h.resolve_error run
        cases why with
        | tooLong long =>
            rw [ModifiedUtf8.byteLength_eq, limit] at long
            have fits := short _ part
            omega
        | full denotes noRoom =>
            rw [built.count_eq, contentsWidth_append, denotes.width_eq, limit] at noRoom
            rw [h.count_eq, missing, contentsWidth_append, contentsWidth] at room
            omega

end Built

/-- **Requests add what is missing.** Whatever was requested of a pool before, a request is
answered if and only if the encoding of each of its texts takes at most 65535 bytes and the
indices of all missing entries, wide ones counted twice, fit behind those in use. Then it adds
the missing entries and nothing else. If it is refused, it has added the missing entries up to
one that is a text too long, whose length is told, or that the pool as it has become has no room
for; then the entry is told, as it would have been made, and the count that was reached. -/
theorem resolve_grows_by_missing (requests : List PoolRequest) (request : PoolRequest) :
    let pool := (resolveAll requests ∅).2
    ((∃ index after, resolve request pool = .ok index after) ↔
      (∀ text, .utf8 text ∈ request.parts → (ModifiedUtf8.encode text).length ≤ 65535) ∧
        pool.count.toNat + contentsWidth (pool.missing request) ≤ 65535) ∧
    (∀ index after, resolve request pool = .ok index after →
      pool.GrowsBy (pool.missing request) after) ∧
    (∀ fault after, resolve request pool = .error fault after →
      ∃ added refused rest, pool.missing request = added ++ refused :: rest ∧
        pool.GrowsBy added after ∧
        ((∃ text, refused = .utf8 text ∧ 65535 < (ModifiedUtf8.encode text).length ∧
            fault = .textTooLong (ModifiedUtf8.encode text).length) ∨
          ((∀ text, refused = .utf8 text → (ModifiedUtf8.encode text).length ≤ 65535) ∧
            65535 < after.count.toNat + refused.width ∧
            ∃ constant, after.Denotes constant refused ∧
              fault = .overflow constant after.count))) := by
  intro pool
  obtain ⟨contents, built, _⟩ := exists_built requests
  refine ⟨built.resolve_ok_iff, fun index after run => ?_, fun fault after run => ?_⟩
  · obtain ⟨grown, builtAfter⟩ := built.resolve_ok run
    exact built.growsBy grown builtAfter
  · obtain ⟨added, refused, rest, missing, _, grown, builtAfter, why⟩ := built.resolve_error run
    refine ⟨added, refused, rest, missing, built.growsBy grown builtAfter, ?_⟩
    cases why with
    | @tooLong text long =>
        rw [ModifiedUtf8.byteLength_eq] at long ⊢
        exact .inl ⟨text, rfl, long, rfl⟩
    | @full constant refused denotes noRoom =>
        have fits := OverflowsFitting.resolve request run
        rw [denotes.width_eq] at noRoom
        refine .inr ⟨?_, noRoom, constant, denotes, rfl⟩
        rintro text rfl
        cases denotes
        exact fits

/-- The class is called what the method is called, and the pool holds that text: four of the six
entries of the method are missing. -/
example : (resolveAll [.string "A"] ∅).2.missing (.methodRef ⟨"A", by decide⟩ "A" "()V" false)
    = [.classInfo "A", .utf8 "()V", .nameAndType "A" "()V", .methodRef "A" "A" "()V" false] := by
  cbv

end ConstantPool

end JvmCode
