import JvmCode.Descriptor.Parser
import JvmCode.Proofs.Name.Segments
/-!
# Descriptors are read back

A reader answers a type exactly when the cursor starts with the written form of the type,
and leaves what comes after it (`FieldType.read_eq_ok_iff`, `MethodType.read_eq_ok_iff`).
No separator is needed: a class name ends at the semicolon that no name holds, and the
first character of a type says which kind it is, which is also how a parameter list is
told from its closing parenthesis.

## Main results

* `FieldType.read_eq_ok_iff`, `MethodType.read_eq_ok_iff`: reading is undoing writing.
* `Reader.Undoes.isPrefix_iff`: what a reader undoes is prefix-free.
* `descriptors_exact`: the same for whole texts, of both kinds of descriptors.
-/

namespace JvmCode

/-! ## Field types -/

namespace FieldType

theorem readClassName_append (name : BinaryName) (rest : List Char) :
    readClassName (name.text.toList ++ ';' :: rest) = .ok (.object name) rest := by
  have before : ∀ c ∈ name.text.toList, (c != ';') = true := by
    intro c h
    have other : c ≠ ';' := by
      rintro rfl
      exact name.semicolon_not_mem h
    simpa using other
  have taken : (name.text.toList ++ ';' :: rest).takeWhile (· != ';') = name.text.toList := by
    rw [List.takeWhile_append_of_pos before]
    simp
  have left : (name.text.toList ++ ';' :: rest).dropWhile (· != ';') = ';' :: rest := by
    rw [List.dropWhile_append_of_pos before]
    simp
  have found : BinaryName.ofString (String.ofList name.text.toList) = .ok name := by
    rw [String.ofList_toList]
    exact BinaryName.ofString_eq_ok_iff.mpr rfl
  unfold readClassName
  rw [left, taken]
  simp only [found]

theorem append_of_readClassName {cursor rest : List Char} {type : FieldType}
    (h : readClassName cursor = .ok type rest) : 'L' :: cursor = type.chars ++ rest := by
  have whole := List.takeWhile_append_dropWhile (p := (· != ';')) (l := cursor)
  unfold readClassName at h
  split at h
  · cases h
  · next c after left =>
      have first := List.head?_dropWhile_not (· != ';') cursor
      rw [left] at first
      obtain rfl : c = ';' := by simpa using first
      split at h
      · next name found =>
          cases h
          have text := BinaryName.ofString_eq_ok_iff.mp found
          rw [chars, text, String.toList_ofList, List.cons_append, List.append_assoc,
            List.singleton_append, ← left, whole]
      · cases h

/-- A type is read from its written form, whatever comes after. -/
theorem read_append (type : FieldType) :
    ∀ rest : List Char, read (type.chars ++ rest) = .ok type rest := by
  induction type with
  | base type => intro rest; cases type <;> rfl
  | object name =>
      intro rest
      have named := readClassName_append name rest
      rw [chars, List.cons_append, List.append_assoc, List.singleton_append, read,
        if_neg (by decide), if_pos rfl, named]
  | array element ih =>
      intro rest
      rw [chars, List.cons_append, read, if_pos rfl, ih rest]

/-- What is read was the written form of what is answered. -/
theorem append_of_read :
    ∀ (cursor : List Char) {rest : List Char} {type : FieldType},
      read cursor = .ok type rest → cursor = type.chars ++ rest := by
  intro cursor
  induction cursor with
  | nil => intro rest type h; cases h
  | cons c cursor ih =>
      intro rest type h
      unfold read at h
      by_cases level : c = '['
      · subst level
        rw [if_pos rfl] at h
        split at h
        · next element after found =>
            cases h
            rw [chars, List.cons_append, ← ih found]
        · cases h
      · rw [if_neg level] at h
        by_cases object : c = 'L'
        · subst object
          rw [if_pos rfl] at h
          exact append_of_readClassName h
        · rw [if_neg object] at h
          split at h
          · next type found =>
              cases h
              rw [chars, BaseType.symbol_of_ofSymbol? found, List.singleton_append]
          · cases h

theorem read_eq_ok_iff {cursor rest : List Char} {type : FieldType} :
    read cursor = .ok type rest ↔ cursor = type.chars ++ rest := by
  constructor
  · exact append_of_read cursor
  · rintro rfl
    exact read_append type rest

/-- The first character of a type is none of those that end a list of types. -/
theorem head_chars (type : FieldType) : ∃ c rest, type.chars = c :: rest ∧ c ≠ ')' ∧ c ≠ 'V' := by
  cases type with
  | base type => exact ⟨_, [], rfl, by cases type <;> decide, by cases type <;> decide⟩
  | object name => exact ⟨'L', _, rfl, by decide, by decide⟩
  | array element => exact ⟨'[', _, rfl, by decide, by decide⟩

end FieldType

/-! ## Method types -/

namespace MethodType

theorem readParameters_append :
    ∀ (types : List FieldType) (done : Array FieldType) (rest : List Char),
      readParameters done (types.flatMap FieldType.chars ++ ')' :: rest)
        = .ok (done.toList ++ types) rest := by
  intro types
  induction types with
  | nil =>
      intro done rest
      rw [List.flatMap_nil, List.nil_append, readParameters, if_pos rfl, List.append_nil]
  | cons type types ih =>
      intro done rest
      obtain ⟨c, others, shape, notClosing, _⟩ := type.head_chars
      have first := type.read_append (types.flatMap FieldType.chars ++ ')' :: rest)
      rw [List.flatMap_cons, List.append_assoc]
      rw [shape, List.cons_append] at first ⊢
      rw [readParameters, if_neg notClosing]
      split
      · next found after read =>
          rw [first] at read
          cases read
          rw [ih, Array.toList_push, List.append_assoc]
          rfl
      · next fault after read =>
          rw [first] at read
          cases read

theorem append_of_readParameters (done : Array FieldType) (cursor : List Char) :
    ∀ {parameters : List FieldType} {rest : List Char},
      readParameters done cursor = .ok parameters rest →
      ∃ types, parameters = done.toList ++ types ∧
        cursor = types.flatMap FieldType.chars ++ ')' :: rest := by
  induction done, cursor using readParameters.induct with
  | case1 done => intro parameters rest h; rw [readParameters] at h; cases h
  | case2 done rest =>
      intro parameters after h
      rw [readParameters, if_pos rfl] at h
      cases h
      exact ⟨[], (List.append_nil _).symm, rfl⟩
  | case3 done c others notClosing type after read ih =>
      intro parameters rest h
      rw [readParameters, if_neg notClosing] at h
      split at h
      · next found left again =>
          rw [read] at again
          cases again
          obtain ⟨types, rfl, rfl⟩ := ih h
          refine ⟨type :: types, ?_, ?_⟩
          · rw [Array.toList_push, List.append_assoc]
            rfl
          · rw [FieldType.append_of_read _ read, List.flatMap_cons, List.append_assoc]
      · cases h
  | case4 done c others notClosing fault after read =>
      intro parameters rest h
      rw [readParameters, if_neg notClosing] at h
      split at h
      · next found left again =>
          rw [read] at again
          cases again
      · cases h

theorem readReturn_eq_ok_iff {cursor rest : List Char} {returned : Option FieldType} :
    readReturn cursor = .ok returned rest ↔ cursor = returnChars returned ++ rest := by
  constructor
  · intro h
    unfold readReturn at h
    split at h
    · cases h
      rfl
    · split at h
      · next type after found =>
          cases h
          exact FieldType.append_of_read _ found
      · cases h
  · rintro rfl
    cases returned with
    | none => rfl
    | some type =>
        obtain ⟨c, others, shape, _, notVoid⟩ := type.head_chars
        have read := type.read_append rest
        show readReturn (type.chars ++ rest) = _
        rw [shape, List.cons_append] at read ⊢
        unfold readReturn
        split
        · next after same =>
            cases same
            exact absurd rfl notVoid
        · rw [read]

theorem read_eq_ok_iff {cursor rest : List Char} {type : MethodType} :
    read cursor = .ok type rest ↔ cursor = type.chars ++ rest := by
  constructor
  · intro h
    unfold read at h
    split at h
    · next inside =>
        split at h
        · cases h
        · next parameters middle hParameters =>
            split at h
            · cases h
            · next returned after hReturn =>
                cases h
                obtain ⟨types, rfl, rfl⟩ := append_of_readParameters _ _ hParameters
                rw [readReturn_eq_ok_iff.mp hReturn, chars_eq, List.cons_append,
                  List.append_assoc, List.cons_append]
    · cases h
  · rintro rfl
    obtain ⟨parameters, returned⟩ := type
    have hParameters := readParameters_append parameters #[] (returnChars returned ++ rest)
    have hReturn : readReturn (returnChars returned ++ rest) = .ok returned rest :=
      readReturn_eq_ok_iff.mpr rfl
    rw [chars_eq, List.cons_append, List.append_assoc, List.cons_append, read]
    simp only [hParameters, hReturn, List.nil_append]

end MethodType

/-! ## Whole texts -/

theorem Reader.parse_eq_ok_iff {α : Type} {reader : Reader α} {source : String} {value : α} :
    reader.parse source = .ok value ↔ reader source.toList = .ok value [] := by
  unfold Reader.parse
  cases read : reader source.toList with
  | error fault rest => simp
  | ok found rest => cases rest <;> simp

/-- The reader undoes writing: it answers a value exactly where the written form of the value
stands, and leaves what comes after. -/
def Reader.Undoes {α : Type} (reader : Reader α) (written : α → List Char) : Prop :=
  ∀ cursor rest value, reader cursor = .ok value rest ↔ cursor = written value ++ rest

namespace Reader.Undoes

variable {α : Type} {reader : Reader α} {written : α → List Char}

theorem parse_eq_ok_iff (h : reader.Undoes written) {source : String} {value : α} :
    reader.parse source = .ok value ↔ source = String.ofList (written value) := by
  refine Reader.parse_eq_ok_iff.trans ((h _ _ _).trans ?_)
  rw [List.append_nil, ← String.toList_inj, String.toList_ofList]

theorem exists_parse_iff (h : reader.Undoes written) {source : String} :
    (∃ value, reader.parse source = .ok value) ↔ ∃ value, source = String.ofList (written value) :=
  exists_congr fun _ => h.parse_eq_ok_iff

/-- No written form is the beginning of another one: it would be read in both ways. -/
theorem isPrefix_iff (h : reader.Undoes written) {a b : α} :
    written a <+: written b ↔ a = b := by
  constructor
  · rintro ⟨rest, longer⟩
    have short : reader (written b) = .ok a rest := (h _ _ _).mpr longer.symm
    have whole : reader (written b) = .ok b [] := (h _ _ _).mpr (List.append_nil _).symm
    rw [short] at whole
    cases whole
    rfl
  · rintro rfl
    exact List.prefix_refl _

end Reader.Undoes

theorem FieldType.undoes : Reader.Undoes read chars := fun _ _ _ => read_eq_ok_iff

namespace MethodType

theorem undoes : Reader.Undoes read chars := fun _ _ _ => read_eq_ok_iff

theorem parse_eq_ok_iff {source : String} {type : MethodType} :
    parse source = .ok type ↔ source = type.descriptor :=
  undoes.parse_eq_ok_iff

@[simp] theorem parse_descriptor (type : MethodType) : parse type.descriptor = .ok type :=
  parse_eq_ok_iff.mpr rfl

theorem descriptor_injective {a b : MethodType} (h : a.descriptor = b.descriptor) : a = b := by
  have both : (Except.ok a : Except DescriptorFault MethodType) = .ok b := by
    rw [← parse_descriptor a, h, parse_descriptor]
  cases both
  rfl

end MethodType

/-- **Descriptors are exact.** A reader answers a type and leaves a rest just if the cursor is the
written form of the type and then the rest. So a text is parsed as a type just if it is its
descriptor, the texts that are accepted are the descriptors, and no descriptor is the beginning
of one of another type. This holds of field types and of method types. -/
theorem descriptors_exact :
    ((∀ cursor rest (type : FieldType),
        FieldType.read cursor = .ok type rest ↔ cursor = type.chars ++ rest) ∧
      (∀ source type, FieldType.parse source = .ok type ↔ source = type.descriptor) ∧
      (∀ source, (∃ type, FieldType.parse source = .ok type) ↔
        ∃ type : FieldType, source = type.descriptor) ∧
      (∀ a b : FieldType, a.chars <+: b.chars ↔ a = b)) ∧
    ((∀ cursor rest (type : MethodType),
        MethodType.read cursor = .ok type rest ↔ cursor = type.chars ++ rest) ∧
      (∀ source type, MethodType.parse source = .ok type ↔ source = type.descriptor) ∧
      (∀ source, (∃ type, MethodType.parse source = .ok type) ↔
        ∃ type : MethodType, source = type.descriptor) ∧
      (∀ a b : MethodType, a.chars <+: b.chars ↔ a = b)) := by
  refine ⟨⟨FieldType.undoes, ?_, ?_, ?_⟩, MethodType.undoes, ?_, ?_, ?_⟩
  · intro source type
    exact FieldType.undoes.parse_eq_ok_iff
  · intro source
    exact FieldType.undoes.exists_parse_iff
  · intro a b
    exact FieldType.undoes.isPrefix_iff
  · intro source type
    exact MethodType.undoes.parse_eq_ok_iff
  · intro source
    exact MethodType.undoes.exists_parse_iff
  · intro a b
    exact MethodType.undoes.isPrefix_iff

end JvmCode
