import JvmCode.Name
/-!
# Types and their descriptors

The types a class file can mention: the eight base types, classes and arrays, and the
*method types* made of them. Each has one written form, its *descriptor*, given here as
a list of characters (`chars`) and as a text (`descriptor`). The widths are in slots, the
unit of operand stacks and local variables: `long` and `double` take two.

## Main results

* `BaseType.ofSymbol?_symbol` — every base type is found again under its symbol.
* `MethodType.chars_eq` — the shape of a written form.
* `slots_cons` — the slots of a parameter list add up.
-/

namespace JvmCode

/-! ## Base types -/

/-- The primitive types. -/
inductive BaseType
  | byte | char | double | float | int | long | short | boolean
  deriving DecidableEq, Hashable

namespace BaseType

/-- The letter that stands for the type in a descriptor. -/
def symbol : BaseType → Char
  | byte => 'B'
  | char => 'C'
  | double => 'D'
  | float => 'F'
  | int => 'I'
  | long => 'J'
  | short => 'S'
  | boolean => 'Z'

/-- The base type a letter stands for. -/
def ofSymbol? : Char → Option BaseType
  | 'B' => some byte
  | 'C' => some char
  | 'D' => some double
  | 'F' => some float
  | 'I' => some int
  | 'J' => some long
  | 'S' => some short
  | 'Z' => some boolean
  | _ => none

/-- Slots taken by a value of the type. -/
def width : BaseType → Nat
  | double | long => 2
  | _ => 1

@[simp] theorem ofSymbol?_symbol (b : BaseType) : ofSymbol? b.symbol = some b := by
  cases b <;> rfl

/-- A letter that is found is the symbol of what it is found as. -/
theorem symbol_of_ofSymbol? {c : Char} {b : BaseType} (h : ofSymbol? c = some b) :
    b.symbol = c := by
  unfold ofSymbol? at h
  split at h <;> cases h <;> rfl

end BaseType

/-! ## Field types -/

/-- Type of a field, local variable, parameter or returned value. -/
inductive FieldType
  | base (type : BaseType)
  | object (className : BinaryName)
  | array (element : FieldType)
  deriving DecidableEq, Hashable

namespace FieldType

/-- Values of the type are references: objects or arrays. -/
def isReference : FieldType → Bool
  | base _ => false
  | object _ | array _ => true

/-- Slots taken by a value of the type. -/
def width : FieldType → Nat
  | base type => type.width
  | object _ | array _ => 1

/-- The written form of the type. -/
def chars : FieldType → List Char
  | base type => [type.symbol]
  | object className => 'L' :: (className.text.toList ++ [';'])
  | array element => '[' :: element.chars

/-- The descriptor of the type. -/
def descriptor (type : FieldType) : String := String.ofList type.chars

/-- How many array levels the type has, and what they are arrays of. -/
def levels (type : FieldType) : Nat × FieldType :=
  match type with
  | array element => let (depth, inner) := element.levels; (depth + 1, inner)
  | other => (0, other)

theorem width_pos (type : FieldType) : 0 < type.width := by
  cases type with
  | base b => cases b <;> simp [width, BaseType.width]
  | object _ => simp [width]
  | array _ => simp [width]

end FieldType

/-- Slots taken by values of all the types together. -/
def slots (types : List FieldType) : Nat :=
  types.foldl (fun total type => total + type.width) 0

@[simp] theorem slots_nil : slots [] = 0 := rfl

theorem slots_cons (type : FieldType) (types : List FieldType) :
    slots (type :: types) = type.width + slots types := by
  have shift : ∀ (l : List FieldType) (n : Nat),
      l.foldl (fun total type => total + type.width) n
        = n + l.foldl (fun total type => total + type.width) 0 := by
    intro l
    induction l with
    | nil => intro n; rfl
    | cons t l ih =>
      intro n
      rw [List.foldl_cons, List.foldl_cons, ih (n + t.width), ih (0 + t.width)]
      omega
  rw [slots, slots, List.foldl_cons, shift]
  omega

/-! ## Method types -/

/-- Parameter types and return type of something that can be called. -/
structure MethodType where
  parameters : List FieldType
  /-- The type returned, `none` for `void`. -/
  returnType : Option FieldType
  deriving DecidableEq, Hashable

/-- The written form of a return type: `V` stands for `void`. -/
def returnChars : Option FieldType → List Char
  | none => ['V']
  | some type => type.chars

namespace MethodType

/-- The written form of the method type. -/
def chars (type : MethodType) : List Char :=
  '(' :: (type.parameters.flatMap FieldType.chars ++ ')' :: returnChars type.returnType)

/-- The descriptor of the method type. -/
def descriptor (type : MethodType) : String := String.ofList type.chars

/-- Slots taken by all the parameters. -/
def parameterSlots (type : MethodType) : Nat := slots type.parameters

/-- Slots taken by the parameters and, if there is one, by the receiver. -/
def argumentSlots (type : MethodType) (hasReceiver : Bool) : Nat :=
  type.parameterSlots + if hasReceiver then 1 else 0

/-- Slots taken by the returned value. -/
def returnSlots (type : MethodType) : Nat :=
  match type.returnType with
  | none => 0
  | some returned => returned.width

theorem chars_eq (parameters : List FieldType) (returned : Option FieldType) :
    (MethodType.mk parameters returned).chars
      = '(' :: (parameters.flatMap FieldType.chars ++ ')' :: returnChars returned) := rfl

end MethodType

end JvmCode
