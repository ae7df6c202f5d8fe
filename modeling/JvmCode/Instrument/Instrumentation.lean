import JvmCode.Instrument.ClassSink
import JvmCode.Instrument.Matcher
/-!
# Instrumentation of declared methods

An `Instrumentation` says which declared methods get which wrappers, and which flags the
class file has to be read and written with. It is built step by step; every step is a
new value and leaves the one it started from alone.

`Instrumentation.wrap` puts an instrumentation in front of a class sink. For each method
the class sink provides a sink for and the type declares, the rules are gone through in
order: where the matcher accepts the method, the wrapper replaces the sink built so far.
So of several matching rules the last one ends up outermost.

## Main results

* `applyRules_append` — rules can be applied in two batches.
* `wrap_wrap` — wrapping twice is wrapping once with the rules of both.
-/

namespace JvmCode

/-- A wrapper, and the methods it is for. -/
structure InstrumentRule (m : Type → Type) (V : Type) where
  matcher : MethodMatcher m
  wrapper : SinkWrapper m V

/-- Rules in the order they were added, and required flags. -/
structure Instrumentation (m : Type → Type) (V : Type) where
  rules : List (InstrumentRule m V)
  writerFlags : WriterFlags
  readerFlags : ReaderFlags

namespace Instrumentation

variable {m : Type → Type} {V : Type}

/-! ## Building -/

/-- No rules and no flags. -/
def empty : Instrumentation m V := ⟨[], .empty, .empty⟩

/-- Wraps the sinks of matched methods, after all rules there are already. -/
def method (instrumentation : Instrumentation m V) (matcher : MethodMatcher m)
    (wrapper : SinkWrapper m V) : Instrumentation m V :=
  { instrumentation with rules := instrumentation.rules ++ [⟨matcher, wrapper⟩] }

/-- Requires further flags for writing. -/
def requireWriter (instrumentation : Instrumentation m V) (flags : WriterFlags) :
    Instrumentation m V :=
  { instrumentation with writerFlags := instrumentation.writerFlags ∪ flags }

/-- Requires further flags for reading. -/
def requireReader (instrumentation : Instrumentation m V) (flags : ReaderFlags) :
    Instrumentation m V :=
  { instrumentation with readerFlags := instrumentation.readerFlags ∪ flags }

/-- Adds the required flags to some for writing. -/
def mergeWriter (instrumentation : Instrumentation m V) (flags : WriterFlags) : WriterFlags :=
  flags ∪ instrumentation.writerFlags

/-- Adds the required flags to some for reading. -/
def mergeReader (instrumentation : Instrumentation m V) (flags : ReaderFlags) : ReaderFlags :=
  flags ∪ instrumentation.readerFlags

/-- The instrumentation in words: how many rules, and which flags. -/
def describe (instrumentation : Instrumentation m V) : String :=
  Wording.fields "ForDeclaredMethods" [
    ("entries", toString instrumentation.rules.length),
    ("writer_flags", instrumentation.writerFlags.describe),
    ("reader_flags", instrumentation.readerFlags.describe)]

/-! ## Wrapping -/

variable [Monad m] [Logs m]

/-- Goes through the rules for a declared method, from the sink built so far. -/
def applyRules (type : DeclaredType) (method : DeclaredMethod) (header : MethodHeader) :
    List (InstrumentRule m V) → V → m V
  | [], sink => pure sink
  | rule :: rules, sink => do
    if ← rule.matcher method then
      Logs.log (.wrapping type.name header.name header.descriptor)
      let wrapped ← rule.wrapper type method sink
      applyRules type method header rules wrapped
    else applyRules type method header rules sink

/-- The sink for a method of the type, from the one that was provided. -/
def instrument (instrumentation : Instrumentation m V) (type : DeclaredType)
    (header : MethodHeader) (provided : V) : m V :=
  match type.find? header.key with
  | none => pure provided
  | some method => applyRules type method header instrumentation.rules provided

/-- The instrumentation of a type in front of a class sink. -/
def wrap (instrumentation : Instrumentation m V) (type : DeclaredType)
    (inner : ClassSink m V) : ClassSink m V where
  beginMethod header := do
    match ← inner.beginMethod header with
    | none => return none
    | some provided => return some (← instrumentation.instrument type header provided)
  finish := inner.finish

theorem applyRules_append [LawfulMonad m] (type : DeclaredType) (method : DeclaredMethod)
    (header : MethodHeader) (rules later : List (InstrumentRule m V)) (sink : V) :
    applyRules type method header (rules ++ later) sink
      = applyRules type method header rules sink >>= applyRules type method header later := by
  induction rules generalizing sink with
  | nil => simp [applyRules]
  | cons rule rules ih =>
    simp only [List.cons_append, applyRules, bind_assoc]
    congr 1
    funext matched
    cases matched <;> simp [ih]

theorem wrap_wrap [LawfulMonad m] (a b : Instrumentation m V) (type : DeclaredType)
    (inner : ClassSink m V) :
    b.wrap type (a.wrap type inner)
      = ({ a with rules := a.rules ++ b.rules } : Instrumentation m V).wrap type inner := by
  simp only [wrap, ClassSink.mk.injEq, and_true]
  funext header
  simp only [bind_assoc]
  congr 1
  funext provided
  cases provided with
  | none => simp
  | some provided =>
    simp only [bind_assoc, pure_bind, instrument]
    split
    · simp
    · simp [applyRules_append]

end Instrumentation

end JvmCode
