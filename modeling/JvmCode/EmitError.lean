import JvmCode.ClassVersion
import JvmCode.ConstantPool.Basic
import JvmCode.Descriptor.Parser
/-!
# Why code cannot be emitted

The causes for which emitting a method body fails, each with what it failed on.
-/

namespace JvmCode

/-- Why code could not be emitted. -/
inductive EmitError
  /-- The constant pool refused an entry the code needs. -/
  | pool (fault : PoolFault)
  /-- The code of a method would be longer than its length field can say. -/
  | codeTooLong (length : Nat)
  /-- The code needs a deeper stack than a method can declare. -/
  | stackTooDeep (depth : Nat)
  /-- A descriptor could not be read where its structure was needed. -/
  | badDescriptor (descriptor : String)
  /-- A name is not valid in a class file. -/
  | badName (fault : NameFault)
  /-- Something stands for code that cannot be generated. -/
  | illegalManipulation
  /-- The class file version cannot load a constant of this kind. -/
  | unsupportedConstant (constant : String) (version : ClassVersion)
  deriving DecidableEq

/-- The fault in words. -/
def PoolFault.describe : PoolFault → String
  | .overflow _ offset => s!"constant pool overflow at index {offset}"
  | .textTooLong byteLength => s!"text of {byteLength} bytes is too long for the constant pool"

/-- The error in words. -/
def EmitError.describe : EmitError → String
  | .pool fault => fault.describe
  | .codeTooLong length => s!"method code of {length} bytes is too long"
  | .stackTooDeep depth => s!"stack of {depth} slots is too deep"
  | .badDescriptor descriptor => s!"bad descriptor '{descriptor}'"
  | .badName fault => fault.message
  | .illegalManipulation => "illegal stack manipulation"
  | .unsupportedConstant constant version =>
    s!"{constant} cannot be loaded in version {version.describe}"

namespace MethodType

/-- The method type a text is the descriptor of, for emitting code. -/
def ofDescriptor (descriptor : String) : Except EmitError MethodType :=
  match parse descriptor with
  | .ok type => .ok type
  | .error _ => .error (.badDescriptor descriptor)

end MethodType

end JvmCode
