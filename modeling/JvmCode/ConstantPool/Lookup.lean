import JvmCode.ConstantPool.Basic
/-!
# What is in a constant pool

Entries refer to each other by indices, so the same constant looks different in two
pools. `ConstantPool.follow?` follows the references of an entry to the texts they end
in; the `ResolvedConstant` it answers does not depend on where things are.

## Main results

* `PoolRequest.resolved_injective` — different requests are for different constants.
-/

namespace JvmCode

/-- A constant with the texts in place of the references to them. -/
inductive ResolvedConstant
  | utf8 (text : String)
  | integer (value : Int32)
  | float (value : Binary32)
  | long (value : Int64)
  | double (value : Binary64)
  | classInfo (name : String)
  | string (text : String)
  | methodRef (owner name descriptor : String) (isInterface : Bool)
  | nameAndType (name descriptor : String)
  | methodType (descriptor : String)
  deriving DecidableEq

namespace ConstantPool

/-- The entry that starts at an index. -/
def get? (pool : ConstantPool) (index : PoolIndex) : Option Constant :=
  (pool.entries.find? fun entry => entry.1 == index).map Prod.snd

/-- The text at an index. -/
def text? (pool : ConstantPool) (index : PoolIndex) : Option String :=
  match pool.get? index with
  | some (.utf8 text) => some text
  | _ => none

/-- The name of the class at an index. -/
def className? (pool : ConstantPool) (index : PoolIndex) : Option String :=
  match pool.get? index with
  | some (.classInfo name) => pool.text? name
  | _ => none

/-- The name and the descriptor at an index. -/
def nameAndType? (pool : ConstantPool) (index : PoolIndex) : Option (String × String) :=
  match pool.get? index with
  | some (.nameAndType name descriptor) =>
    match pool.text? name, pool.text? descriptor with
    | some name, some descriptor => some (name, descriptor)
    | _, _ => none
  | _ => none

/-- The constant at an index, with its references followed. -/
def follow? (pool : ConstantPool) (index : PoolIndex) : Option ResolvedConstant :=
  match pool.get? index with
  | none => none
  | some (.utf8 text) => some (.utf8 text)
  | some (.integer value) => some (.integer value)
  | some (.float value) => some (.float value)
  | some (.long value) => some (.long value)
  | some (.double value) => some (.double value)
  | some (.classInfo name) => (pool.text? name).map .classInfo
  | some (.string text) => (pool.text? text).map .string
  | some (.methodRef owner member isInterface) =>
    match pool.className? owner, pool.nameAndType? member with
    | some owner, some (name, descriptor) => some (.methodRef owner name descriptor isInterface)
    | _, _ => none
  | some (.nameAndType _ _) =>
    (pool.nameAndType? index).map fun (name, descriptor) => .nameAndType name descriptor
  | some (.methodType descriptor) => (pool.text? descriptor).map .methodType

end ConstantPool

namespace PoolRequest

/-- The constant that a request is for. -/
def resolved : PoolRequest → ResolvedConstant
  | utf8 text => .utf8 text
  | classInfo name => .classInfo name.text
  | string text => .string text
  | integer value => .integer value
  | float value => .float value
  | long value => .long value
  | double value => .double value
  | methodRef owner name descriptor isInterface =>
    .methodRef owner.text name descriptor isInterface
  | methodType descriptor => .methodType descriptor

theorem resolved_injective {a b : PoolRequest} (h : a.resolved = b.resolved) : a = b := by
  have names : ∀ {m n : BinaryName}, m.text = n.text → m = n := by
    rintro ⟨_, _⟩ ⟨_, _⟩ rfl
    rfl
  cases a <;> cases b <;> simp only [resolved, ResolvedConstant.utf8.injEq,
    ResolvedConstant.integer.injEq, ResolvedConstant.float.injEq, ResolvedConstant.long.injEq,
    ResolvedConstant.double.injEq, ResolvedConstant.classInfo.injEq,
    ResolvedConstant.string.injEq, ResolvedConstant.methodRef.injEq,
    ResolvedConstant.methodType.injEq, reduceCtorEq] at h
  case classInfo.classInfo => rw [names h]
  case methodRef.methodRef =>
    obtain ⟨owner, rfl, rfl, rfl⟩ := h
    rw [names owner]
  all_goals rw [h]

end PoolRequest

end JvmCode
