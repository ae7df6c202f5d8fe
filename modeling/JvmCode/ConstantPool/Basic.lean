import JvmCode.ConstantPool.Constant
import JvmCode.Name
import Std.Data.HashMap
/-!
# Constant pools

A `ConstantPool` only grows, at its end, and never holds an entry twice: asking for a
constant that is in the pool answers the index it has. What can be asked for is a
`PoolRequest`; requests other than for plain values first ask for the entries they refer
to.

Pool operations are state transformers that keep the pool also when they fail
(`PoolM`): the entries made on the way to a failure stay.

## Main results

* `intern_of_interned` — a constant that is in the pool is found and changes nothing.
* `intern_eq_error_iff` — interning fails exactly when a new constant has no room.
-/

namespace JvmCode

/-! ## Pools -/

/-- Entries in the order of their indices, where each can be found, and how many indices
they take together. -/
structure ConstantPool where
  constants : Array Constant
  interned : Std.HashMap Constant PoolIndex
  slots : Nat

/-- Why a request was refused. -/
inductive PoolFault
  | overflow (constant : Constant) (offset : UInt16)
  | textTooLong (byteLength : Nat)
  deriving DecidableEq

/-- A pool operation: it changes a pool and answers a value or a fault. -/
abbrev PoolM (α : Type) := EStateM PoolFault ConstantPool α

namespace ConstantPool

/-- The largest number of a 16-bit word, the limit of indices and of text lengths. -/
def limit : Nat := 65535

/-- The pool without entries. -/
def empty : ConstantPool := ⟨#[], {}, 0⟩

instance : EmptyCollection ConstantPool := ⟨empty⟩

/-- Number of entries. -/
def size (pool : ConstantPool) : Nat := pool.constants.size

/-- The first index after those of all entries, which a class file holds as the count of
its pool. -/
def count (pool : ConstantPool) : UInt16 := UInt16.ofNat (pool.slots + 1)

/-- The entries with their indices, in order. -/
def entries (pool : ConstantPool) : Array (PoolIndex × Constant) :=
  (pool.constants.foldl
    (fun (next, listed) constant =>
      (next + UInt16.ofNat constant.width, listed.push (PoolIndex.mk next, constant)))
    ((1 : UInt16), #[])).2

instance : ToBytes ConstantPool where
  toBytes pool := toBytes pool.count ++ pool.constants.toList.flatMap toBytes

/-! ## Interning -/

/-- The index of a constant, which is added at the end if the pool does not hold it. -/
def intern (constant : Constant) : PoolM PoolIndex := fun pool =>
  match pool.interned[constant]? with
  | some index => .ok index pool
  | none =>
    if pool.count.toNat + constant.width ≤ limit then
      .ok ⟨pool.count⟩
        { constants := pool.constants.push constant
          interned := pool.interned.insert constant ⟨pool.count⟩
          slots := pool.slots + constant.width }
    else .error (.overflow constant pool.count) pool

/-- The index of a text, which must not be too long to be encoded. -/
def internText (text : String) : PoolM PoolIndex :=
  if ModifiedUtf8.byteLength text ≤ limit then intern (.utf8 text)
  else throw (.textTooLong (ModifiedUtf8.byteLength text))

theorem intern_of_interned {pool : ConstantPool} {constant : Constant} {index : PoolIndex}
    (h : pool.interned[constant]? = some index) : intern constant pool = .ok index pool := by
  simp [intern, h]

theorem intern_eq_error_iff {pool after : ConstantPool} {constant : Constant}
    {fault : PoolFault} :
    intern constant pool = .error fault after ↔
      pool.interned[constant]? = none ∧ limit < pool.count.toNat + constant.width ∧
        fault = .overflow constant pool.count ∧ after = pool := by
  unfold intern
  split
  · next found => simp [found]
  · next missing =>
    split
    · next room =>
      constructor
      · intro h
        cases h
      · rintro ⟨_, full, _⟩
        omega
    · next full =>
      simp only [EStateM.Result.error.injEq, true_and, missing]
      constructor
      · rintro ⟨rfl, rfl⟩
        exact ⟨by omega, rfl, rfl⟩
      · rintro ⟨_, rfl, rfl⟩
        exact ⟨rfl, rfl⟩

end ConstantPool

/-! ## Requests -/

/-- What can be asked of a constant pool. -/
inductive PoolRequest
  | utf8 (text : String)
  | classInfo (name : BinaryName)
  | string (text : String)
  | integer (value : Int32)
  | float (value : Binary32)
  | long (value : Int64)
  | double (value : Binary64)
  | methodRef (owner : BinaryName) (name descriptor : String) (isInterface : Bool)
  | methodType (descriptor : String)
  deriving DecidableEq

namespace ConstantPool

/-- The index of the entry for a class. -/
def internClass (name : BinaryName) : PoolM PoolIndex := do
  let text ← internText name.text
  intern (.classInfo text)

/-- The index of the entry for a method, whose class comes first, then its name and type. -/
def internMethodRef (owner : BinaryName) (name descriptor : String) (isInterface : Bool) :
    PoolM PoolIndex := do
  let owner ← internClass owner
  let name ← internText name
  let descriptor ← internText descriptor
  let nameAndType ← intern (.nameAndType name descriptor)
  intern (.methodRef owner nameAndType isInterface)

/-- The index of the entry that answers a request. -/
def resolve : PoolRequest → PoolM PoolIndex
  | .utf8 text => internText text
  | .classInfo name => internClass name
  | .string text => do
    let text ← internText text
    intern (.string text)
  | .integer value => intern (.integer value)
  | .float value => intern (.float value)
  | .long value => intern (.long value)
  | .double value => intern (.double value)
  | .methodRef owner name descriptor isInterface =>
    internMethodRef owner name descriptor isInterface
  | .methodType descriptor => do
    let descriptor ← internText descriptor
    intern (.methodType descriptor)

/-- Makes the requests in turn, whatever the answers, and keeps the answers in order. -/
def resolveAll (requests : List PoolRequest) (pool : ConstantPool) :
    Array (Except PoolFault PoolIndex) × ConstantPool :=
  requests.foldl
    (fun (answers, pool) request =>
      match resolve request pool with
      | .ok index pool => (answers.push (.ok index), pool)
      | .error fault pool => (answers.push (.error fault), pool))
    (#[], pool)

end ConstantPool

end JvmCode
