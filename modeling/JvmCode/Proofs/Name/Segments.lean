import JvmCode.Name
/-!
# Names and their segments

A binary name is accepted by looking at its segments, and the grammar of names speaks of texts that
are joined by slashes. The two are brought together by three facts about segments: joining them
gives the text back, texts without a slash that are joined are the segments again, and a slash in
a text divides its segments. Which texts have no empty segment can then be told from where their
slashes are.

## Main results

* `intercalate_segments`, `segments_intercalate`, `segments_append`: segments against joined texts.
* `exists_mem_segments_iff`, `nil_mem_segments_iff`: what is in the segments, and when one is empty.
* `BinaryName.not_reserved`, `UnqualifiedName.not_reserved`: what names do not hold.
* `binaryNames_grammar`: the texts that are binary names, and what is wrong with all others.
-/

namespace JvmCode

/-! ## Segments -/

section Segments

variable {text segment : List Char} {parts : List (List Char)} {c : Char}

/-- A character other than a slash goes to the front of the first segment. -/
theorem segments_of_ne {first : Char} {part : List Char} {rest : List (List Char)}
    (notSlash : first ≠ '/') (parts : segments text = part :: rest) :
    segments (first :: text) = (first :: part) :: rest := by
  unfold segments at parts ⊢
  rw [List.foldr_cons, parts, if_neg notSlash]

theorem segments_eq_splitOn (text : List Char) : segments text = text.splitOn '/' := by
  induction text with
  | nil => rfl
  | cons c text ih =>
      rw [List.splitOn_cons_eq_if_modifyHead, ← ih]
      by_cases slash : c = '/'
      · rw [if_pos (beq_iff_eq.mpr slash), slash, segments_slash]
      · obtain ⟨part, rest, parts⟩ := List.exists_cons_of_ne_nil (segments_ne_nil text)
        rw [if_neg (mt beq_iff_eq.mp slash), parts, segments_of_ne slash parts,
          List.modifyHead_cons]

/-- Joining the segments of a text gives the text. -/
theorem intercalate_segments (text : List Char) : ['/'].intercalate (segments text) = text := by
  rw [segments_eq_splitOn, List.intercalate_splitOn]

/-- Texts without a slash that are joined are the segments of what they are joined to. -/
theorem segments_intercalate (noSlash : ∀ part ∈ parts, '/' ∉ part) (nonempty : parts ≠ []) :
    segments (['/'].intercalate parts) = parts := by
  rw [segments_eq_splitOn, List.splitOn_intercalate _ noSlash nonempty]

/-- A slash divides the segments. -/
theorem segments_append (before after : List Char) :
    segments (before ++ '/' :: after) = segments before ++ segments after := by
  simp only [segments_eq_splitOn, List.splitOn_append_cons_self]

/-- Texts that are joined bring their segments with them. -/
theorem segments_intercalate_cons (text : List Char) (others : List (List Char)) :
    segments (['/'].intercalate (text :: others)) = (text :: others).flatMap segments := by
  induction others generalizing text with
  | nil => rw [List.intercalate_singleton, List.flatMap_singleton]
  | cons other others ih =>
      rw [List.intercalate_cons_cons, List.append_assoc, List.singleton_append, segments_append, ih]
      exact List.flatMap_cons.symm

/-- A slash is never part of a segment: it starts the next one. -/
theorem slash_not_mem_segment (member : segment ∈ segments text) : '/' ∉ segment := by
  induction text generalizing segment with
  | nil =>
      obtain rfl := List.mem_singleton.mp member
      exact List.not_mem_nil
  | cons c text ih =>
      by_cases slash : c = '/'
      · rw [slash, segments_slash] at member
        rcases List.mem_cons.mp member with rfl | later
        · exact List.not_mem_nil
        · exact ih later
      · obtain ⟨part, rest, parts⟩ := List.exists_cons_of_ne_nil (segments_ne_nil text)
        rw [segments_of_ne slash parts] at member
        rw [parts] at ih
        rcases List.mem_cons.mp member with rfl | later
        · exact List.not_mem_cons_of_ne_of_not_mem (Ne.symm slash) (ih List.mem_cons_self)
        · exact ih (List.mem_cons_of_mem _ later)

theorem mem_intercalate_iff (notSlash : c ≠ '/') :
    c ∈ ['/'].intercalate parts ↔ ∃ part ∈ parts, c ∈ part := by
  induction parts with
  | nil => simp
  | cons part parts ih =>
      cases parts with
      | nil => simp
      | cons other parts =>
          rw [List.intercalate_cons_cons, List.mem_append, List.mem_append, ih]
          simp [notSlash]

/-- The characters of a text but for its slashes are those of its segments. -/
theorem exists_mem_segments_iff (notSlash : c ≠ '/') :
    (∃ segment ∈ segments text, c ∈ segment) ↔ c ∈ text := by
  rw [← mem_intercalate_iff notSlash, intercalate_segments]

/-- The library has this of strings only. -/
theorem intercalate_append {before after : List (List Char)} (someBefore : before ≠ [])
    (someAfter : after ≠ []) :
    ['/'].intercalate (before ++ after)
      = ['/'].intercalate before ++ '/' :: ['/'].intercalate after := by
  induction before with
  | nil => exact absurd rfl someBefore
  | cons part before ih =>
      by_cases last : before = []
      · rw [last, List.singleton_append, List.intercalate_cons_of_ne_nil someAfter,
          List.intercalate_singleton, List.append_assoc, List.singleton_append]
      · have more : before ++ after ≠ [] := by simp [last]
        rw [List.cons_append, List.intercalate_cons_of_ne_nil more, ih last,
          List.intercalate_cons_of_ne_nil last, List.append_assoc _ (['/'].intercalate before)]

/-- A segment is empty where a slash has no character of a segment on one of its sides. -/
theorem nil_mem_segments_iff :
    [] ∈ segments text ↔
      text = [] ∨ text.head? = some '/' ∨ text.getLast? = some '/' ∨ ['/', '/'] <:+: text := by
  constructor
  · intro member
    obtain ⟨before, after, parts⟩ := List.append_of_mem member
    have joined := intercalate_segments text
    rw [parts] at joined
    -- The empty segment is at the end of the text, or a slash comes next.
    have fromHere : ['/'].intercalate ([] :: after) = [] ∨
        ∃ rest, ['/'].intercalate ([] :: after) = '/' :: rest := by
      cases after with
      | nil => exact .inl List.intercalate_singleton
      | cons other after => exact .inr ⟨_, List.intercalate_cons_cons⟩
    by_cases start : before = []
    · rw [start, List.nil_append] at joined
      rw [joined] at fromHere
      rcases fromHere with empty | ⟨rest, slash⟩
      · exact .inl empty
      · exact .inr (.inl (List.head?_eq_some_iff.mpr ⟨rest, slash⟩))
    · rw [intercalate_append start (List.cons_ne_nil _ _)] at joined
      rcases fromHere with empty | ⟨rest, slash⟩
      · rw [empty] at joined
        exact .inr (.inr (.inl (List.getLast?_eq_some_iff.mpr ⟨_, joined.symm⟩)))
      · rw [slash] at joined
        refine .inr (.inr (.inr ⟨['/'].intercalate before, rest, ?_⟩))
        rw [← joined, List.append_assoc]
        rfl
  · rintro (rfl | first | last | inside)
    · exact List.mem_singleton_self _
    · obtain ⟨rest, rfl⟩ := List.head?_eq_some_iff.mp first
      rw [segments_slash]
      exact List.mem_cons_self
    · obtain ⟨before, rfl⟩ := List.getLast?_eq_some_iff.mp last
      rw [segments_append]
      exact List.mem_append_right _ (List.mem_singleton_self _)
    · obtain ⟨before, after, rfl⟩ := inside
      rw [List.append_assoc, List.cons_append, segments_append]
      exact List.mem_append_right _ List.mem_cons_self

end Segments

/-! ## The check -/

section Check

variable {text segment : List Char} {c : Char}

theorem segmentProblem?_eq_none_iff :
    segmentProblem? segment = none ↔ segment ≠ [] ∧ ∀ c ∈ segment, isReserved c = false := by
  unfold segmentProblem?
  cases segment with
  | nil => simp
  | cons first rest =>
      rw [if_neg (by simp), ite_eq_right_iff, List.any_eq_true]
      simp

theorem slash_not_mem_of_segmentProblem? (h : segmentProblem? segment = none) : '/' ∉ segment := by
  intro member
  have fine := (segmentProblem?_eq_none_iff.mp h).2 '/' member
  revert fine
  decide

/-- The empty text is not special: its one segment is empty. -/
theorem pathProblem?_eq (text : List Char) :
    pathProblem? text = (segments text).findSome? segmentProblem? := by
  cases text <;> rfl

theorem pathProblem?_eq_none_iff :
    pathProblem? text = none ↔ ∀ segment ∈ segments text, segmentProblem? segment = none := by
  rw [pathProblem?_eq, List.findSome?_eq_none_iff]

/-- The problem of a path is that of the first of its segments that has one. -/
theorem pathProblem?_eq_some_iff {problem : NameProblem} :
    pathProblem? text = some problem ↔ ∃ before segment after,
      segments text = before ++ segment :: after ∧ segmentProblem? segment = some problem ∧
        ∀ part ∈ before, segmentProblem? part = none := by
  rw [pathProblem?_eq, List.findSome?_eq_some_iff]

/-- What is said of a text of segments without looking at the segments: where its slashes are not,
and which characters it does not hold. -/
structure SlashSeparated (text : List Char) : Prop where
  nonempty : text ≠ []
  notFirst : text.head? ≠ some '/'
  notLast : text.getLast? ≠ some '/'
  notAdjacent : ¬ ['/', '/'] <:+: text
  noDot : '.' ∉ text
  noSemicolon : ';' ∉ text
  noBracket : '[' ∉ text

theorem SlashSeparated.iff_nil_not_mem :
    SlashSeparated text ↔ [] ∉ segments text ∧
      ∀ c ∈ text, c ≠ '/' → isReserved c = false := by
  rw [nil_mem_segments_iff]
  constructor
  · intro h
    refine ⟨?_, ?_⟩
    · rintro (empty | first | last | inside)
      · exact h.nonempty empty
      · exact h.notFirst first
      · exact h.notLast last
      · exact h.notAdjacent inside
    · intro c member notSlash
      have notDot : c ≠ '.' := fun same => h.noDot (same ▸ member)
      have notSemicolon : c ≠ ';' := fun same => h.noSemicolon (same ▸ member)
      have notBracket : c ≠ '[' := fun same => h.noBracket (same ▸ member)
      simp [isReserved, notDot, notSemicolon, notBracket, notSlash]
  · rintro ⟨slashes, plain⟩
    have absent : ∀ c, c ≠ '/' → isReserved c = true → c ∉ text := by
      intro c notSlash reserved member
      rw [plain c member notSlash] at reserved
      cases reserved
    exact ⟨fun h => slashes (.inl h), fun h => slashes (.inr (.inl h)),
      fun h => slashes (.inr (.inr (.inl h))), fun h => slashes (.inr (.inr (.inr h))),
      absent _ (by decide) (by decide), absent _ (by decide) (by decide),
      absent _ (by decide) (by decide)⟩

theorem pathProblem?_eq_none_iff_slashSeparated :
    pathProblem? text = none ↔ SlashSeparated text := by
  rw [pathProblem?_eq_none_iff, SlashSeparated.iff_nil_not_mem]
  constructor
  · intro fine
    refine ⟨fun member => (segmentProblem?_eq_none_iff.mp (fine [] member)).1 rfl, ?_⟩
    intro c member notSlash
    obtain ⟨segment, isSegment, holds⟩ := (exists_mem_segments_iff notSlash).mpr member
    exact (segmentProblem?_eq_none_iff.mp (fine segment isSegment)).2 c holds
  · rintro ⟨noEmpty, plain⟩ segment isSegment
    refine segmentProblem?_eq_none_iff.mpr ⟨fun empty => noEmpty (empty ▸ isSegment), ?_⟩
    intro c holds
    have notSlash : c ≠ '/' := by
      rintro rfl
      exact slash_not_mem_segment isSegment holds
    exact plain c ((exists_mem_segments_iff notSlash).mp ⟨segment, isSegment, holds⟩) notSlash

end Check

/-! ## Unqualified names -/

namespace UnqualifiedName

/-- The text is that of a name. -/
def Accepts (text : String) : Prop := ∃ name, ofString text = .ok name

theorem text_injective {a b : UnqualifiedName} (h : a.text = b.text) : a = b := by
  cases a
  cases b
  cases h
  rfl

theorem not_reserved (name : UnqualifiedName) {c : Char} (h : c ∈ name.text.toList) :
    isReserved c = false :=
  (segmentProblem?_eq_none_iff.mp name.valid).2 c h

theorem accepts_iff {text : String} : Accepts text ↔ segmentProblem? text.toList = none := by
  constructor
  · rintro ⟨name, found⟩
    rw [← ofString_eq_ok_iff.mp found]
    exact name.valid
  · intro fine
    exact ⟨⟨text, fine⟩, ofString_eq_ok_iff.mpr rfl⟩

theorem ofString_eq_error_iff {text : String} {fault : NameFault} :
    ofString text = .error fault ↔
      ∃ problem, segmentProblem? text.toList = some problem ∧ fault = .unqualified text problem := by
  unfold ofString
  split
  · next fine => simp [fine]
  · next problem bad => simp [bad, eq_comm]

end UnqualifiedName

/-! ## Binary names -/

namespace BinaryName

/-- The text is that of a name. -/
def Accepts (text : String) : Prop := ∃ name, ofString text = .ok name

theorem accepts_iff {text : String} : Accepts text ↔ pathProblem? text.toList = none := by
  constructor
  · rintro ⟨name, found⟩
    rw [← ofString_eq_ok_iff.mp found]
    exact name.valid
  · intro fine
    exact ⟨⟨text, fine⟩, ofString_eq_ok_iff.mpr rfl⟩

theorem ofString_eq_error_iff {text : String} {fault : NameFault} :
    ofString text = .error fault ↔
      ∃ problem, pathProblem? text.toList = some problem ∧ fault = .binary text problem := by
  unfold ofString
  split
  · next fine => simp [fine]
  · next problem bad => simp [bad, eq_comm]

/-- A binary name holds none of the reserved characters but the slash. -/
theorem not_reserved (name : BinaryName) {c : Char} (h : c ∈ name.text.toList)
    (notSlash : c ≠ '/') : isReserved c = false :=
  (SlashSeparated.iff_nil_not_mem.mp (pathProblem?_eq_none_iff_slashSeparated.mp name.valid)).2 c h
    notSlash

theorem semicolon_not_mem (name : BinaryName) : ';' ∉ name.text.toList :=
  (pathProblem?_eq_none_iff_slashSeparated.mp name.valid).noSemicolon

end BinaryName

/-! ## Joined names -/

theorem toList_join (parts : List String) :
    ("/".intercalate parts).toList = ['/'].intercalate (parts.map String.toList) :=
  String.toList_intercalate

theorem join_segments (text : String) :
    "/".intercalate ((segments text.toList).map String.ofList) = text := by
  have same : String.toList ∘ String.ofList = id := funext fun _ => String.toList_ofList
  rw [← String.toList_inj, toList_join, List.map_map, same, List.map_id, intercalate_segments]

theorem segments_join {parts : List String} (noSlash : ∀ part ∈ parts, '/' ∉ part.toList)
    (nonempty : parts ≠ []) :
    segments ("/".intercalate parts).toList = parts.map String.toList := by
  rw [toList_join]
  exact segments_intercalate (by simpa using noSlash) (by simpa using nonempty)

theorem segments_join_cons (text : String) (others : List String) :
    segments ("/".intercalate (text :: others)).toList
      = (text :: others).flatMap (fun part => segments part.toList) := by
  rw [toList_join, List.map_cons, segments_intercalate_cons, ← List.map_cons, List.flatMap_map]

namespace BinaryName

variable {text : String}

/-- A binary name is unqualified names that are joined. -/
theorem accepts_iff_join :
    Accepts text ↔ ∃ parts : List String, parts ≠ [] ∧
      (∀ part ∈ parts, UnqualifiedName.Accepts part) ∧ text = "/".intercalate parts := by
  constructor
  · intro accepted
    refine ⟨(segments text.toList).map String.ofList, by simp [segments_ne_nil], ?_,
      (join_segments text).symm⟩
    intro part member
    obtain ⟨segment, isSegment, rfl⟩ := List.mem_map.mp member
    rw [UnqualifiedName.accepts_iff, String.toList_ofList]
    exact pathProblem?_eq_none_iff.mp (accepts_iff.mp accepted) segment isSegment
  · rintro ⟨parts, nonempty, fine, rfl⟩
    have noProblem : ∀ part ∈ parts, segmentProblem? part.toList = none := fun part member =>
      UnqualifiedName.accepts_iff.mp (fine part member)
    have noSlash : ∀ part ∈ parts, '/' ∉ part.toList := fun part member =>
      slash_not_mem_of_segmentProblem? (noProblem part member)
    rw [accepts_iff, pathProblem?_eq_none_iff, segments_join noSlash nonempty]
    exact List.forall_mem_map.mpr noProblem

/-- Joined texts are a binary name just if each of them is one. -/
theorem accepts_join_iff {others : List String} :
    Accepts ("/".intercalate (text :: others)) ↔ ∀ part ∈ text :: others, Accepts part := by
  simp only [accepts_iff, pathProblem?_eq_none_iff, segments_join_cons, List.mem_flatMap]
  constructor
  · intro fine part member segment isSegment
    exact fine segment ⟨part, member, isSegment⟩
  · rintro fine segment ⟨part, member, isSegment⟩
    exact fine part member segment isSegment

/-- A rejected text is blamed on the first of its parts between slashes that is no name. -/
theorem ofString_eq_error_iff_join {fault : NameFault} :
    ofString text = .error fault ↔ ∃ before part after problem,
      text = "/".intercalate (before ++ part :: after) ∧
      (∀ name ∈ before, UnqualifiedName.Accepts name) ∧
      (∀ other ∈ part :: after, '/' ∉ other.toList) ∧
      UnqualifiedName.ofString part = .error (.unqualified part problem) ∧
      fault = .binary text problem := by
  rw [ofString_eq_error_iff]
  constructor
  · rintro ⟨problem, isProblem, rfl⟩
    obtain ⟨before, segment, after, parts, bad, fine⟩ := pathProblem?_eq_some_iff.mp isProblem
    refine ⟨before.map String.ofList, String.ofList segment, after.map String.ofList, problem,
      ?_, ?_, ?_, ?_, rfl⟩
    · rw [← List.map_cons, ← List.map_append, ← parts, join_segments]
    · intro name member
      obtain ⟨part, isBefore, rfl⟩ := List.mem_map.mp member
      rw [UnqualifiedName.accepts_iff, String.toList_ofList]
      exact fine part isBefore
    · intro other member
      rw [← List.map_cons] at member
      obtain ⟨part, isAfter, rfl⟩ := List.mem_map.mp member
      have isSegment : part ∈ segments text.toList := by
        rw [parts]
        exact List.mem_append_right _ isAfter
      rw [String.toList_ofList]
      exact slash_not_mem_segment isSegment
    · refine UnqualifiedName.ofString_eq_error_iff.mpr ⟨problem, ?_, rfl⟩
      rw [String.toList_ofList]
      exact bad
  · rintro ⟨before, part, after, problem, rfl, fine, noSlash, bad, rfl⟩
    obtain ⟨_, isProblem, same⟩ := UnqualifiedName.ofString_eq_error_iff.mp bad
    cases same
    -- No part has a slash, the first ones because they are names, so the parts are the segments.
    have noProblem : ∀ name ∈ before, segmentProblem? name.toList = none := fun name member =>
      UnqualifiedName.accepts_iff.mp (fine name member)
    have noSlashes : ∀ other ∈ before ++ part :: after, '/' ∉ other.toList := by
      intro other member
      rcases List.mem_append.mp member with isBefore | isAfter
      · exact slash_not_mem_of_segmentProblem? (noProblem other isBefore)
      · exact noSlash other isAfter
    refine ⟨problem, pathProblem?_eq_some_iff.mpr ?_, rfl⟩
    refine ⟨before.map String.toList, part.toList, after.map String.toList, ?_, isProblem, ?_⟩
    · rw [segments_join noSlashes (by simp), List.map_append, List.map_cons]
    · exact List.forall_mem_map.mpr noProblem

end BinaryName

/-- **The grammar of binary names.** A text is a binary name just if it is one or more unqualified
names joined by slashes, or, said of the text alone, if it is not empty, holds no dot, semicolon or
bracket, and has no slash at an end and no two slashes side by side. The name keeps the text, which
a semicolon behind it can end. Texts that are joined are a binary name just if each is one. Any
other text is rejected for what is wrong with its first part between slashes that is no unqualified
name. -/
theorem binaryNames_grammar (text : String) :
    (BinaryName.Accepts text ↔ ∃ parts : List String, parts ≠ [] ∧
      (∀ part ∈ parts, UnqualifiedName.Accepts part) ∧ text = "/".intercalate parts) ∧
    (BinaryName.Accepts text ↔ SlashSeparated text.toList) ∧
    (∀ name, BinaryName.ofString text = .ok name ↔ name.text = text) ∧
    (∀ name : BinaryName, ';' ∉ name.text.toList) ∧
    (∀ others, BinaryName.Accepts ("/".intercalate (text :: others)) ↔
      ∀ part ∈ text :: others, BinaryName.Accepts part) ∧
    ∀ fault, BinaryName.ofString text = .error fault ↔ ∃ before part after problem,
      text = "/".intercalate (before ++ part :: after) ∧
      (∀ name ∈ before, UnqualifiedName.Accepts name) ∧
      (∀ other ∈ part :: after, '/' ∉ other.toList) ∧
      UnqualifiedName.ofString part = .error (.unqualified part problem) ∧
      fault = .binary text problem := by
  refine ⟨BinaryName.accepts_iff_join, ?_, fun _ => BinaryName.ofString_eq_ok_iff,
    BinaryName.semicolon_not_mem, fun _ => BinaryName.accepts_join_iff,
    fun _ => BinaryName.ofString_eq_error_iff_join⟩
  rw [BinaryName.accepts_iff]
  exact pathProblem?_eq_none_iff_slashSeparated

/-- The empty part comes before the one with a dot. -/
example : BinaryName.ofString "com//Po.int" = .error (.binary "com//Po.int" .empty) := by
  rfl

end JvmCode
