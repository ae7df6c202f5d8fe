import JvmCode.Manipulation.Apply
import JvmCode.Sink.Assembler
import JvmCode.Sink.StackMeter
import JvmCode.Sink.Tracer
/-!
# Method handle adapters

An adapter is a static method that takes a method handle followed by the handle's own
arguments, invokes the handle and returns what it returned. `Adapter.generate` emits the
body of the adapter for a method type, measuring the stack on the way, and
`Adapter.listing` shows the outcome.

## Main results

* `locals_type` — the adapter has one slot more of arguments than the handle.
-/

namespace JvmCode

/-- A generated adapter: the method type of the handle, the effect the body declares, the one
that was measured, and the code with the pool that goes with it. -/
structure Adapter where
  handleType : MethodType
  declared : StackEffect
  observed : StackEffect
  method : MethodCode
  pool : ConstantPool

namespace Adapter

/-! ## Generating -/

/-- The method type of the adapter for a handle. -/
def type (handleType : MethodType) : MethodType :=
  ⟨.object .methodHandle :: handleType.parameters, handleType.returnType⟩

/-- The body of the adapter for a handle. -/
def body (handleType : MethodType) : Manipulation :=
  .compound [
    .step (.load .reference 0),
    .allArguments handleType 1,
    .step (.invokeHandle ⟨handleType⟩),
    .step (.ret (ReturnKind.ofType handleType.returnType))]

/-- The label under which the body of the adapter is traced. -/
def label (target : TargetClass) (handleType : MethodType) : String :=
  target.name.text ++ ".invoke" ++ (type handleType).descriptor

/-- What adapters are emitted into. -/
abbrev Sink := StackMeter (Tracer Assembler)

/-- Emits the adapter for a handle whose method type has this descriptor. -/
def emit (target : TargetClass) (descriptor : String) (handleType : MethodType) :
    Emission Sink (StackEffect × StackEffect) := do
  let declared ← (body handleType).apply target
  let observed := (← get).sink.observed
  if 65535 < declared.maximal then throw (.stackTooDeep declared.maximal)
  if 65535 < (type handleType).parameterSlots then throw (.badDescriptor descriptor)
  Emission.hand (.limits (UInt16.ofNat declared.maximal)
    (UInt16.ofNat (type handleType).parameterSlots))
  Emission.hand .finish
  return (declared, observed)

/-- The adapter for a handle whose method type has this descriptor, and what was logged. -/
def generate (target : TargetClass) (descriptor : String) :
    Except EmitError Adapter × Array LogRecord :=
  match MethodType.ofDescriptor descriptor with
  | .error error => (.error error, #[])
  | .ok handleType =>
    let sink : Sink := .start (.start (label target handleType) .empty)
    match emit target descriptor handleType ⟨sink, #[]⟩ with
    | .error error state => (.error error, state.log)
    | .ok (declared, observed) state =>
      let assembler := state.sink.inner.inner
      (.ok ⟨handleType, declared, observed, assembler.method, assembler.pool⟩, state.log)

theorem locals_type (handleType : MethodType) :
    (type handleType).parameterSlots = 1 + handleType.parameterSlots := by
  simp [type, MethodType.parameterSlots, slots_cons, FieldType.width]

/-! ## Showing -/

/-- A byte as two hexadecimal digits. -/
def hexByte (byte : UInt8) : String :=
  String.ofList [Nat.digitChar (byte.toNat / 16), Nat.digitChar (byte.toNat % 16)]

/-- The lines that show an adapter. -/
def listing (descriptor : String) (adapter : Adapter) : List String :=
  let invocation : HandleInvocation := ⟨adapter.handleType⟩
  [ descriptor,
    "  invocation: " ++ invocation.describe ++ " (" ++ invocation.effect.describe ++ ")",
    "  body: declared " ++ adapter.declared.describe ++ ", observed " ++
      adapter.observed.describe,
    s!"  max_stack {adapter.method.maxStack}, max_locals {adapter.method.maxLocals}",
    "  code: " ++ String.intercalate " " (adapter.method.code.toList.map hexByte),
    s!"  constant_pool_count: {adapter.pool.count}" ]

/-! ## Several adapters -/

/-- What a run over several descriptors showed and logged, and why it stopped early, if it
did. -/
structure Report where
  lines : Array String
  log : Array LogRecord
  outcome : Except EmitError Unit

namespace Report

/-- Continues a report with the adapters for more descriptors, up to the first that fails. -/
def extend (target : TargetClass) (report : Report) : List String → Report
  | [] => report
  | descriptor :: descriptors =>
    match generate target descriptor with
    | (.ok adapter, log) =>
      extend target
        { report with
          lines := report.lines.append (listing descriptor adapter).toArray
          log := report.log.append log }
        descriptors
    | (.error error, log) =>
      { report with log := report.log.append log, outcome := .error error }

end Report

/-- Shows the adapters for all the descriptors in turn. -/
def report (target : TargetClass) (descriptors : List String) : Report :=
  Report.extend target ⟨#[], #[.generating target], .ok ()⟩ descriptors

end Adapter

end JvmCode
