import JvmCode.Floating.Shortest
import JvmCode.Manipulation.Basic
import JvmCode.Text.Quoted
/-!
# Wording of log lines

How types, instructions and manipulations are named inside the lines of a log. Values
that are made of others are written as a name followed by their parts: in parentheses
where the parts have no names, and between braces where they have.
-/

namespace JvmCode.Wording

/-! ## Parts -/

/-- A name with the one part that belongs to it. -/
def wrapped (name part : String) : String := name ++ "(" ++ part ++ ")"

/-- A name with named parts. -/
def fields (name : String) (parts : List (String × String)) : String :=
  name ++ " \x7b " ++ String.intercalate ", " (parts.map fun part => part.1 ++ ": " ++ part.2)
    ++ " \x7d"

/-- A sequence of parts. -/
def sequence (parts : List String) : String := "[" ++ String.intercalate ", " parts ++ "]"

/-! ## Types -/

/-- The name of a base type. -/
def baseType : BaseType → String
  | .byte => "Byte"
  | .char => "Char"
  | .double => "Double"
  | .float => "Float"
  | .int => "Int"
  | .long => "Long"
  | .short => "Short"
  | .boolean => "Boolean"

/-- A field type. -/
def fieldType : FieldType → String
  | .base type => wrapped "Base" (baseType type)
  | .object className => wrapped "Object" className.text
  | .array element => wrapped "Array" (fieldType element)

/-- A method type. -/
def methodType (type : MethodType) : String :=
  let returned := match type.returnType with
    | none => "None"
    | some returned => wrapped "Some" (fieldType returned)
  fields "MethodType"
    [("parameter_types", sequence (type.parameters.map fieldType)), ("return_type", returned)]

/-- The name of a computational type. -/
def computationalType : ComputationalType → String
  | .int => "Integer"
  | .long => "Long"
  | .float => "Float"
  | .double => "Double"
  | .reference => "Reference"

/-- The name of what is returned. -/
def returnKind : ReturnKind → String
  | none => "Void"
  | some kind => computationalType kind

/-- The name of a size. -/
def valueSize : ValueSize → String
  | .zero => "Zero"
  | .single => "Single"
  | .double => "Double"

/-! ## Instructions -/

/-- A loaded constant. -/
def loadable : Loadable → String
  | .integer value => wrapped "Integer" (toString value)
  | .float value => wrapped "Float" value.describe
  | .long value => wrapped "Long" (toString value)
  | .double value => wrapped "Double" value.describe
  | .string text => wrapped "String" (Text.quote text)
  | .methodType descriptor => wrapped "MethodType" (Text.quote descriptor)

/-- The name of a kind of calls. -/
def invokeKind : InvokeKind → String
  | .virtual => "Virtual"
  | .special => "Special"
  | .static => "Static"
  | .interface => "Interface"

/-- A method call. -/
def methodCall (call : MethodCall) : String :=
  fields "MethodInstruction" [
    ("invoke_type", invokeKind call.kind),
    ("owner", call.owner.text),
    ("name", call.name.text),
    ("descriptor", Text.quote call.descriptor),
    ("is_interface", toString call.isInterface)]

/-- The letter of a computational type in the names of instructions. -/
def kindLetter : ComputationalType → String
  | .int => "I"
  | .long => "L"
  | .float => "F"
  | .double => "D"
  | .reference => "A"

/-- The name of an instruction that duplicates slots. -/
def duplicationName (copied : SlotGroup) (under : ValueSize) : String :=
  let name := match copied with
    | .one => "Dup"
    | .two => "Dup2"
  match under with
  | .zero => name
  | .single => name ++ "X1"
  | .double => name ++ "X2"

/-- The name of an instruction that pushes a small `int`, one less than the operand. -/
def smallIntName (successor : Fin 7) : String :=
  match successor with
  | 0 => "IConstM1"
  | n => s!"IConst{n.val - 1}"

/-- An instruction. -/
def instruction : Instruction → String
  | .nop => "Nop"
  | .aconstNull => "AConstNull"
  | .iconst successor => smallIntName successor
  | .lconst value => s!"LConst{value.val}"
  | .fconst value => s!"FConst{value.val}"
  | .dconst value => s!"DConst{value.val}"
  | .bipush value => wrapped "BiPush" (toString value)
  | .sipush value => wrapped "SiPush" (toString value)
  | .ldc constant => wrapped "Ldc" (loadable constant)
  | .load kind index => wrapped (kindLetter kind ++ "Load") (toString index)
  | .store kind index => wrapped (kindLetter kind ++ "Store") (toString index)
  | .pop .one => "Pop"
  | .pop .two => "Pop2"
  | .dup copied under => duplicationName copied under
  | .swap => "Swap"
  | .ret none => "Return"
  | .ret (some kind) => kindLetter kind ++ "Return"
  | .invoke call => wrapped "Invoke" (methodCall call)

/-! ## Manipulations -/

/-- A duplication. -/
def duplication : Duplication → String
  | .plain value => valueSize value
  | .flipOver value under => wrapped "FlipOver" (valueSize value ++ ", " ++ valueSize under)

/-- A load or store of a local variable. -/
def variableAccess (kind : ComputationalType) (index : UInt16) (isStore : Bool) : String :=
  fields "MethodVariableAccess" [
    ("kind", computationalType kind),
    ("index", toString index),
    ("store", toString isStore)]

/-- A primitive manipulation. -/
def primitive : Primitive → String
  | .trivial => "Trivial"
  | .illegal => "Illegal"
  | .int value => wrapped "IntegerConstant" (toString value)
  | .long value => wrapped "LongConstant" (toString value)
  | .float value => wrapped "FloatConstant" value.describe
  | .double value => wrapped "DoubleConstant" value.describe
  | .null => "NullConstant"
  | .text value => wrapped "TextConstant" (Text.quote value)
  | .methodType value => wrapped "MethodTypeConstant" (methodType value)
  | .duplicate value => duplication value
  | .remove size => valueSize size
  | .load kind index => variableAccess kind index false
  | .store kind index => variableAccess kind index true
  | .ret kind => returnKind kind
  | .invokeHandle invocation =>
    fields "HandleInvocation" [("method_type", methodType invocation.methodType)]

mutual

/-- A manipulation. -/
def manipulation : Manipulation → String
  | .step step => primitive step
  | .compound parts => fields "Compound" [("manipulations", sequence (manipulations parts))]

/-- The manipulations of a sequence, each on its own. -/
def manipulations : List Manipulation → List String
  | [] => []
  | part :: parts => manipulation part :: manipulations parts

end

end JvmCode.Wording
