import JvmCode.Descriptor.Basic
/-!
# Reading descriptors

Readers work on a cursor, the list of the characters not read yet, and leave it where
they stopped, also when they fail: one cursor can serve several readers in turn, before
and after failures. `FieldType.read` and `MethodType.read` read one descriptor from the
front of the cursor; `FieldType.parse` and `MethodType.parse` read a whole text and
refuse what is left over.

## Main results

* `FieldType.length_read` — a field type that is read takes at least one character, which
  is why reading a parameter list ends.
-/

namespace JvmCode

/-! ## Faults and readers -/

/-- Why a descriptor could not be read. -/
inductive DescriptorFault
  | missingFieldType
  | unterminatedClassName (seen : String)
  | badClassName (fault : NameFault)
  | unexpected (found : Char)
  | missingOpening
  | missingClosing
  | trailing (found : Char) (source : String)
  deriving DecidableEq

/-- The fault in words. -/
def DescriptorFault.message : DescriptorFault → String
  | .missingFieldType => "Descriptor ended where a field type was expected"
  | .unterminatedClassName seen => s!"Unterminated class name 'L{seen}'"
  | .badClassName fault => fault.message
  | .unexpected found => s!"Unexpected '{found}' where a field type was expected"
  | .missingOpening => "Method descriptor must start with '('"
  | .missingClosing => "Method descriptor is missing ')'"
  | .trailing found source => s!"Trailing '{found}' in descriptor '{source}'"

/-- A reader moves a cursor over characters and answers a value or a fault. -/
abbrev Reader (α : Type) := EStateM DescriptorFault (List Char) α

/-- What a reader answers, with the cursor it leaves. -/
abbrev Reading (α : Type) := EStateM.Result DescriptorFault (List Char) α

/-- Reads a whole text: what the reader leaves over is a fault. -/
def Reader.parse {α : Type} (reader : Reader α) (source : String) : Except DescriptorFault α :=
  match reader source.toList with
  | .ok value [] => .ok value
  | .ok _ (c :: _) => .error (.trailing c source)
  | .error fault _ => .error fault

/-! ## Field types -/

namespace FieldType

/-- Reads a class name up to the semicolon that ends it. -/
def readClassName (cursor : List Char) : Reading FieldType :=
  match cursor.dropWhile (· != ';') with
  | [] => .error (.unterminatedClassName (String.ofList (cursor.takeWhile (· != ';')))) []
  | _ :: rest =>
    match BinaryName.ofString (String.ofList (cursor.takeWhile (· != ';'))) with
    | .ok className => .ok (.object className) rest
    | .error fault => .error (.badClassName fault) rest

/-- Reads one field type. -/
def read : List Char → Reading FieldType
  | [] => .error .missingFieldType []
  | c :: rest =>
    if c = '[' then
      match read rest with
      | .ok element rest => .ok (.array element) rest
      | .error fault rest => .error fault rest
    else if c = 'L' then readClassName rest
    else match BaseType.ofSymbol? c with
      | some type => .ok (.base type) rest
      | none => .error (.unexpected c) rest

/-- The field type a text is the descriptor of. -/
def parse (source : String) : Except DescriptorFault FieldType :=
  Reader.parse read source

theorem length_readClassName {cursor rest : List Char} {type : FieldType}
    (h : readClassName cursor = .ok type rest) : rest.length < cursor.length := by
  have hsplit := List.takeWhile_append_dropWhile (p := (· != ';')) (l := cursor)
  unfold readClassName at h
  split at h
  · cases h
  · next c after hdrop =>
    split at h
    · cases h
      rw [← hsplit, hdrop]
      simp
      omega
    · cases h

theorem length_read {cursor rest : List Char} {type : FieldType}
    (h : read cursor = .ok type rest) : rest.length < cursor.length := by
  induction cursor generalizing type rest with
  | nil => cases h
  | cons c cursor ih =>
    unfold read at h
    split at h
    · split at h
      · next hread =>
        cases h
        have := ih hread
        simp only [List.length_cons]
        omega
      · cases h
    · split at h
      · have := length_readClassName h
        simp only [List.length_cons]
        omega
      · split at h
        · cases h
          simp
        · cases h

end FieldType

/-! ## Method types -/

namespace MethodType

/-- Reads parameter types up to the closing parenthesis; `done` holds those read before. -/
def readParameters (done : Array FieldType) (cursor : List Char) : Reading (List FieldType) :=
  match cursor with
  | [] => .error .missingClosing []
  | c :: rest =>
    if c = ')' then .ok done.toList rest
    else match _h : FieldType.read (c :: rest) with
      | .ok type rest => readParameters (done.push type) rest
      | .error fault rest => .error fault rest
  termination_by cursor.length
  decreasing_by exact FieldType.length_read _h

/-- Reads a return type, where `V` stands for `void`. -/
def readReturn : List Char → Reading (Option FieldType)
  | 'V' :: rest => .ok none rest
  | cursor =>
    match FieldType.read cursor with
    | .ok type rest => .ok (some type) rest
    | .error fault rest => .error fault rest

/-- Reads one method type. A cursor that does not open with a parenthesis stays as it is. -/
def read : List Char → Reading MethodType
  | '(' :: rest =>
    match readParameters #[] rest with
    | .error fault rest => .error fault rest
    | .ok parameters rest =>
      match readReturn rest with
      | .error fault rest => .error fault rest
      | .ok returned rest => .ok ⟨parameters, returned⟩ rest
  | cursor => .error .missingOpening cursor

/-- The method type a text is the descriptor of. -/
def parse (source : String) : Except DescriptorFault MethodType :=
  Reader.parse read source

end MethodType

end JvmCode
