import JvmCode.Log.Wording
/-!
# Log records

What happens while code is emitted, as data. A record has a level and a text; the text
is made only when it is asked for.
-/

namespace JvmCode

/-- How important a record is. -/
inductive LogLevel
  | trace | debug | info
  deriving DecidableEq

/-- The name of the level. -/
def LogLevel.name : LogLevel → String
  | .trace => "TRACE"
  | .debug => "DEBUG"
  | .info => "INFO"

/-- Something that happened while code was emitted. -/
inductive LogRecord
  /-- A traced sink was handed its `number`-th instruction. -/
  | visited (label : String) (number : Nat) (instruction : Instruction)
  /-- A traced sink was told the limits of the method. -/
  | limited (label : String) (maxStack maxLocals : UInt16)
  /-- A traced sink was told that the method ends. -/
  | ended (label : String) (count : Nat)
  /-- A compound was not applied because of this part. -/
  | refused (part : Manipulation)
  /-- A part of a compound was applied. -/
  | applied (part : Manipulation) (effect : StackEffect)
  /-- The sink of a method of a type is about to be wrapped. -/
  | wrapping (type : BinaryName) (method descriptor : String)
  /-- Adapters are about to be generated into a class. -/
  | generating (target : TargetClass)

namespace LogRecord

/-- The level of the record. -/
def level : LogRecord → LogLevel
  | visited .. | limited .. | ended .. | applied .. => .trace
  | refused .. | wrapping .. => .debug
  | generating .. => .info

/-- The record in words. -/
def text : LogRecord → String
  | visited label number instruction =>
    s!"{label} #{number}: " ++ Wording.instruction instruction
  | limited label maxStack maxLocals =>
    s!"{label}: max_stack = {maxStack}, max_locals = {maxLocals}"
  | ended label count => s!"{label}: end after {count} instructions"
  | refused part =>
    "Refusing to apply compound with invalid part " ++ Wording.manipulation part
  | applied part effect =>
    "Applied " ++ Wording.manipulation part ++ " (" ++ effect.describe ++ ")"
  | wrapping type method descriptor =>
    s!"Wrapping visitor of {type.text}.{method}{descriptor}"
  | generating target =>
    s!"Generating adapters in '{target.name.text}' for class file version " ++
      target.version.describe

end LogRecord

end JvmCode
