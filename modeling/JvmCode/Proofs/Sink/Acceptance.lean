import JvmCode.Proofs.ConstantPool.Growth
import JvmCode.Proofs.Sink.SettledCode
/-!
# When an instruction is accepted

An assembler refuses an instruction for one of three reasons, looked for in this order: its
constant is not taken by the pool, it is a call of an interface method whose arguments cannot be
counted in a byte, or its bytes have no room behind the code. By then the pool may have grown.
So each reason is said of the state before, by what the instruction asks for (`request?`), by what
it repeats of a descriptor (`CountsArguments`) and by how long it is (`length`), and none of these
looks at its encoding.

## Main results

* `Instruction.encode_of_placed`: how long an encoding is.
* `Assembler.accept_cases`: the reply of an assembler, by the reason for it.
* `Assembler.Reachable.ofPool`, `Assembler.Reachable.exists_size_eq`: assemblers in use.
* `Assembler.accepted_or_unchanged`: which bytes an accepted instruction adds to the code, and that
  a refused one adds none.
-/

namespace JvmCode

open ConstantPool

namespace Instruction

/-! ## Instructions without their bytes -/

/-- What the instruction asks of a constant pool. -/
def request? : Instruction → Option PoolRequest
  | ldc constant => some constant.request
  | invoke call => some call.request
  | _ => none

/-- How many bytes an access to a local variable takes. -/
def accessLength (index : Nat) : Nat :=
  if index ≤ 3 then 1 else if index ≤ 255 then 2 else 4

/-- How many bytes the instruction takes if its constant is at this place. -/
def length (place : PoolIndex) : Instruction → Nat
  | bipush _ => 2
  | sipush _ => 3
  | ldc constant => if constant.width = 1 ∧ place.val.toNat ≤ 255 then 2 else 3
  | load _ index | store _ index => accessLength index.toNat
  | invoke call => if call.kind = .interface then 5 else 3
  | _ => 1

/-- The pool has a place for the constant of the instruction, and is this one after it was asked.
Any place will do for an instruction without one. -/
def Placed (pool : ConstantPool) (instruction : Instruction) (place : PoolIndex)
    (after : ConstantPool) : Prop :=
  match instruction.request? with
  | none => after = pool
  | some request => resolve request pool = .ok place after

/-- If the instruction repeats how many slots its arguments take, the receiver included, then
its descriptor tells, and a byte holds it. -/
def CountsArguments : Instruction → Prop
  | invoke call => call.kind = .interface →
      ∃ type, MethodType.parse call.descriptor = .ok type ∧ 1 + type.parameterSlots ≤ 255
  | _ => True

theorem length_localBytes (short normal : UInt8) (index : UInt16) :
    (localBytes short normal index).length = accessLength index.toNat := by
  unfold localBytes accessLength
  split
  · rfl
  · split <;> rfl

theorem length_ldcBytes (constant : Loadable) (place : PoolIndex) :
    (ldcBytes constant place).length = (ldc constant).length place := by
  have width : constant.width = 1 ∨ constant.width = 2 := by
    cases constant <;> simp [Loadable.width]
  show _ = if constant.width = 1 ∧ place.val.toNat ≤ 255 then 2 else 3
  unfold ldcBytes
  rcases width with one | two
  · rw [if_neg (by omega)]
    by_cases low : place.val.toNat ≤ 255
    · rw [if_pos low, if_pos ⟨one, low⟩]
      rfl
    · rw [if_neg low, if_neg (fun h => low h.2)]
      rfl
  · rw [if_pos two, if_neg (by omega)]
    rfl

/-! ## Trailers of calls -/

section Trailer

variable {call : MethodCall}

/-- Where the arguments are counted, the trailer of a call is the count and a zero, or nothing. -/
theorem trailer_of_counts (counts : (invoke call).CountsArguments) :
    ∃ bytes, call.trailer = .ok bytes ∧
      3 + bytes.length = if call.kind = .interface then 5 else 3 := by
  by_cases isInterface : call.kind = .interface
  · obtain ⟨type, parsed, room⟩ := counts isInterface
    have slots : type.argumentSlots true ≤ 255 := by
      rw [MethodType.argumentSlots, if_pos rfl]
      omega
    refine ⟨[UInt8.ofNat (type.argumentSlots true), 0], ?_, by rw [if_pos isInterface]; rfl⟩
    rw [MethodCall.trailer, isInterface, MethodCall.argumentCount, MethodType.ofDescriptor, parsed]
    simp only [if_pos slots]
  · refine ⟨[], ?_, by rw [if_neg isInterface]; rfl⟩
    unfold MethodCall.trailer
    split
    · contradiction
    · rfl

/-- Where they are not, the descriptor is to blame. -/
theorem trailer_of_not_counts (counts : ¬ (invoke call).CountsArguments) :
    call.trailer = .error (.badDescriptor call.descriptor) := by
  have isInterface : call.kind = .interface := by
    by_contra other
    exact counts fun isInterface => absurd isInterface other
  rw [MethodCall.trailer, isInterface, MethodCall.argumentCount, MethodType.ofDescriptor]
  cases parsed : MethodType.parse call.descriptor with
  | error fault => rfl
  | ok type =>
      have many : ¬ type.argumentSlots true ≤ 255 := by
        intro few
        rw [MethodType.argumentSlots, if_pos rfl, Nat.add_comm] at few
        exact counts fun _ => ⟨type, parsed, few⟩
      simp only [if_neg many]

end Trailer

/-! ## Encoding, by its outcome -/

section Encode

variable {pool after : ConstantPool} {instruction : Instruction} {place : PoolIndex}

theorem place_of_ok {request : PoolRequest} (run : resolve request pool = .ok place after) :
    EncodeM.place request pool = .ok place after := by
  rw [EncodeM.place, run]

theorem place_of_error {request : PoolRequest} {fault : PoolFault}
    (run : resolve request pool = .error fault after) :
    EncodeM.place request pool = .error (.pool fault) after := by
  rw [EncodeM.place, run]

/-- What fails at its first step fails. -/
theorem bind_of_error {α β : Type} {first : EncodeM α} {next : α → EncodeM β} {error : EmitError}
    (run : first pool = .error error after) : (first >>= next) pool = .error error after := by
  show EStateM.bind first next pool = _
  rw [EStateM.bind, run]

/-- An instruction whose constant is refused is refused with the same fault. -/
theorem encode_of_refused {request : PoolRequest} {fault : PoolFault}
    (asks : instruction.request? = some request)
    (run : resolve request pool = .error fault after) :
    instruction.encode pool = .error (.pool fault) after := by
  cases instruction with
  | ldc constant =>
      cases asks
      exact bind_of_error (place_of_error run)
  | invoke call =>
      cases asks
      exact bind_of_error (place_of_error run)
  | _ => cases asks

/-- With its constant placed, only a call can still be refused, for its descriptor. -/
theorem encode_of_not_counts (placed : Placed pool instruction place after)
    (counts : ¬ instruction.CountsArguments) :
    ∃ call, instruction = .invoke call ∧
      instruction.encode pool = .error (.badDescriptor call.descriptor) after := by
  cases instruction with
  | invoke call =>
      refine ⟨call, rfl, bind_of_ok (place_of_ok placed) (bind_of_error ?_)⟩
      rw [trailer_of_not_counts counts]
      rfl
  | _ => exact absurd trivial counts

/-- Otherwise an instruction is encoded, and its bytes are as many as its place lets expect. -/
theorem encode_of_placed (placed : Placed pool instruction place after)
    (counts : instruction.CountsArguments) :
    ∃ bytes, instruction.encode pool = .ok bytes after ∧
      bytes.length = instruction.length place := by
  cases instruction with
  | ldc constant =>
      exact ⟨ldcBytes constant place, bind_of_ok (place_of_ok placed) rfl,
        length_ldcBytes constant place⟩
  | invoke call =>
      obtain ⟨trailer, isTrailer, counted⟩ := trailer_of_counts counts
      have same : EncodeM.ofExcept call.trailer after = .ok trailer after := by
        rw [isTrailer]
        rfl
      refine ⟨_, bind_of_ok (place_of_ok placed) (bind_of_ok same rfl), ?_⟩
      rw [length, ← counted, List.length_cons, List.length_append]
      show 2 + trailer.length + 1 = 3 + trailer.length
      omega
  | load kind index =>
      cases placed
      exact ⟨_, rfl, length_localBytes _ _ index⟩
  | store kind index =>
      cases placed
      exact ⟨_, rfl, length_localBytes _ _ index⟩
  | pop group => cases placed; cases group <;> exact ⟨_, rfl, rfl⟩
  | dup copied under => cases placed; cases copied <;> exact ⟨_, rfl, rfl⟩
  | ret kind => cases placed; cases kind <;> exact ⟨_, rfl, rfl⟩
  | _ => cases placed; exact ⟨_, rfl, rfl⟩

/-- The constant is placed or refused. -/
theorem placed_or_refused (pool : ConstantPool) (instruction : Instruction) :
    (∃ place after, Placed pool instruction place after) ∨
      ∃ request fault after, instruction.request? = some request ∧
        resolve request pool = .error fault after := by
  unfold Placed
  cases instruction.request? with
  | none => exact .inl ⟨⟨0⟩, pool, rfl⟩
  | some request =>
      cases run : resolve request pool with
      | ok place after => exact .inl ⟨place, after, run⟩
      | error fault after => exact .inr ⟨request, fault, after, rfl, run⟩

/-- What was encoded has its constant placed. -/
theorem exists_placed_of_encode {bytes : List UInt8}
    (encoded : instruction.encode pool = .ok bytes after) :
    ∃ place, Placed pool instruction place after ∧ bytes.length = instruction.length place := by
  rcases placed_or_refused pool instruction with
    ⟨place, grown, placed⟩ | ⟨request, fault, grown, asks, refused⟩
  · by_cases counts : instruction.CountsArguments
    · obtain ⟨same, run, counted⟩ := encode_of_placed placed counts
      rw [encoded] at run
      cases run
      exact ⟨place, placed, counted⟩
    · obtain ⟨call, _, run⟩ := encode_of_not_counts placed counts
      rw [encoded] at run
      cases run
  · rw [encode_of_refused asks refused] at encoded
    cases encoded

/-- The bytes of an instruction are read back as this instruction alone, so there are some. -/
theorem decodeAll_of_encode (h : pool.Consistent) {bytes : List UInt8}
    (encoded : instruction.encode pool = .ok bytes after) :
    decodeAll after bytes = some [instruction] ∧ bytes ≠ [] := by
  obtain ⟨_, _, encodes⟩ := (encode_answers h instruction).of_ok encoded
  have codes : Codes after [instruction] (bytes ++ []) := .cons encodes .nil
  rw [List.append_nil] at codes
  exact ⟨codes.decodeAll_eq, List.ne_nil_of_length_pos encodes.length_pos⟩

end Encode

end Instruction

open Instruction

namespace Assembler

variable {assembler : Assembler} {instruction : Instruction}

/-! ## Replies -/

/-- An instruction that is encoded is written if its length has room. -/
theorem accept_of_placed {place : PoolIndex} {after : ConstantPool}
    (placed : Placed assembler.pool instruction place after)
    (counts : instruction.CountsArguments) :
    ∃ bytes, bytes.length = instruction.length place ∧
      accept instruction assembler =
        if assembler.code.size + instruction.length place ≤ codeLimit then
          .done (write { assembler with pool := after } bytes)
        else
          .refused { assembler with pool := after }
            (.codeTooLong (assembler.code.size + instruction.length place)) := by
  obtain ⟨bytes, run, counted⟩ := encode_of_placed placed counts
  refine ⟨bytes, counted, ?_⟩
  rw [accept_of_encode_ok run, counted]
  rfl

/-- An assembler refuses an instruction for its constant, for its descriptor or for its length,
and else writes it. -/
theorem accept_cases (assembler : Assembler) (instruction : Instruction) :
    (∃ request fault after, instruction.request? = some request ∧
      resolve request assembler.pool = .error fault after ∧
      accept instruction assembler = .refused { assembler with pool := after } (.pool fault)) ∨
    (∃ place after call, Placed assembler.pool instruction place after ∧
      ¬ instruction.CountsArguments ∧ instruction = .invoke call ∧
      accept instruction assembler =
        .refused { assembler with pool := after } (.badDescriptor call.descriptor)) ∨
    (∃ place after bytes, Placed assembler.pool instruction place after ∧
      instruction.CountsArguments ∧ bytes.length = instruction.length place ∧
      accept instruction assembler =
        if assembler.code.size + instruction.length place ≤ codeLimit then
          .done (write { assembler with pool := after } bytes)
        else
          .refused { assembler with pool := after }
            (.codeTooLong (assembler.code.size + instruction.length place))) := by
  rcases placed_or_refused assembler.pool instruction with
    ⟨place, after, placed⟩ | ⟨request, fault, after, asks, run⟩
  · by_cases counts : instruction.CountsArguments
    · obtain ⟨bytes, counted, reply⟩ := accept_of_placed placed counts
      exact .inr (.inr ⟨place, after, bytes, placed, counts, counted, reply⟩)
    · obtain ⟨call, isCall, refused⟩ := encode_of_not_counts placed counts
      exact .inr (.inl ⟨place, after, call, placed, counts, isCall,
        accept_of_encode_error refused⟩)
  · exact .inl ⟨request, fault, after, asks, run,
      accept_of_encode_error (encode_of_refused asks run)⟩

/-- What is accepted. -/
theorem accept_ok_iff :
    (accept instruction assembler).outcome = .ok () ↔
      ∃ place after, Placed assembler.pool instruction place after ∧
        instruction.CountsArguments ∧
        assembler.code.size + instruction.length place ≤ codeLimit := by
  constructor
  · intro accepted
    rcases accept_cases assembler instruction with
      ⟨_, _, _, _, _, reply⟩ | ⟨_, _, _, _, _, _, reply⟩ |
      ⟨place, after, _, placed, counts, _, reply⟩
    · rw [reply] at accepted
      cases accepted
    · rw [reply] at accepted
      cases accepted
    · rw [reply] at accepted
      split at accepted
      · next room => exact ⟨place, after, placed, counts, room⟩
      · cases accepted
  · rintro ⟨place, after, placed, counts, room⟩
    obtain ⟨_, _, reply⟩ := accept_of_placed placed counts
    rw [reply, if_pos room]
    rfl

/-- What is refused for its length alone, and which length is told: that of the code with the bytes
that the instruction would have been written in. -/
theorem accept_codeTooLong_iff (h : assembler.pool.Consistent) {length : Nat} :
    (accept instruction assembler).outcome = .error (.codeTooLong length) ↔
      ∃ place after bytes, Placed assembler.pool instruction place after ∧
        instruction.CountsArguments ∧ bytes.length = instruction.length place ∧
        decodeAll after bytes = some [instruction] ∧
        length = assembler.code.size + bytes.length ∧ codeLimit < length := by
  constructor
  · intro refused
    rcases accept_cases assembler instruction with
      ⟨_, _, _, _, _, reply⟩ | ⟨_, _, _, _, _, _, reply⟩ |
      ⟨place, after, _, placed, counts, _, reply⟩
    · rw [reply] at refused
      cases refused
    · rw [reply] at refused
      cases refused
    · rw [reply] at refused
      split at refused
      · cases refused
      · next full =>
          cases refused
          obtain ⟨bytes, encoded, counted⟩ := encode_of_placed placed counts
          exact ⟨place, after, bytes, placed, counts, counted, (decodeAll_of_encode h encoded).1,
            by rw [counted], Nat.lt_of_not_le full⟩
  · rintro ⟨place, after, bytes, placed, counts, counted, _, rfl, full⟩
    obtain ⟨_, _, reply⟩ := accept_of_placed placed counts
    rw [counted] at full ⊢
    rw [reply, if_neg (Nat.not_le.mpr full)]
    rfl

/-- An accepted instruction is written behind the code, in bytes that are read back as it. -/
theorem exists_bytes_of_accepted (h : assembler.pool.Consistent)
    (accepted : (accept instruction assembler).outcome = .ok ()) :
    let sink := (accept instruction assembler).sink
    ∃ place bytes, Placed assembler.pool instruction place sink.pool ∧
      bytes.length = instruction.length place ∧ bytes ≠ [] ∧
      decodeAll sink.pool bytes = some [instruction] ∧
      sink.method = { assembler.method with code := assembler.code ++ bytes } := by
  obtain ⟨bytes, after, run, isSink⟩ := exists_encode_of_accepted accepted
  obtain ⟨place, placed, counted⟩ := exists_placed_of_encode run
  obtain ⟨decoded, nonempty⟩ := decodeAll_of_encode h run
  rw [isSink]
  exact ⟨place, bytes, placed, counted, nonempty, decoded, rfl⟩

/-! ## One assembler after the other -/

/-- The pool that an instruction leaves is one that requests lead to. -/
theorem exists_requests_accept (assembler : Assembler) (instruction : Instruction) :
    ∃ requests, (accept instruction assembler).sink.pool
      = (resolveAll requests assembler.pool).2 := by
  have single : ∀ request, (resolveAll [request] assembler.pool).2
      = poolAfter (resolve request assembler.pool) := by
    intro request
    rw [resolveAll_cons]
    rfl
  have ofPlaced : ∀ place after, Placed assembler.pool instruction place after →
      ∃ requests, after = (resolveAll requests assembler.pool).2 := by
    intro place after placed
    unfold Placed at placed
    cases asks : instruction.request? with
    | none =>
        rw [asks] at placed
        exact ⟨[], placed⟩
    | some request =>
        rw [asks] at placed
        exact ⟨[request], by rw [single, placed]; rfl⟩
  rcases accept_cases assembler instruction with
    ⟨request, fault, after, _, run, reply⟩ | ⟨place, after, _, placed, _, _, reply⟩ |
    ⟨place, after, bytes, placed, _, _, reply⟩
  · exact ⟨[request], by rw [reply, single, run]; rfl⟩
  · rw [reply]
    exact ofPlaced place after placed
  · rw [reply]
    split <;> exact ofPlaced place after placed

theorem exists_requests_hand (assembler : Assembler) (visit : Visit) :
    ∃ requests, (visit.hand assembler).sink.pool = (resolveAll requests assembler.pool).2 := by
  cases visit with
  | instruction delivered => exact exists_requests_accept assembler delivered
  | call delivered => exact exists_requests_accept assembler (.invoke delivered)
  | limits | finish => exact ⟨[], rfl⟩

theorem resolveAll_append (requests more : List PoolRequest) (pool : ConstantPool) :
    (resolveAll (requests ++ more) pool).2 = (resolveAll more (resolveAll requests pool).2).2 := by
  induction requests generalizing pool with
  | nil => rfl
  | cons request requests ih => rw [List.cons_append, resolveAll_cons, resolveAll_cons, ih]

theorem exists_requests_handAll (assembler : Assembler) (visits : List Visit) :
    ∃ requests, (Visit.handAll assembler visits).1.pool
      = (resolveAll requests assembler.pool).2 := by
  induction visits generalizing assembler with
  | nil => exact ⟨[], rfl⟩
  | cons visit visits ih =>
      obtain ⟨first, isFirst⟩ := exists_requests_hand assembler visit
      obtain ⟨others, areOthers⟩ := ih (visit.hand assembler).sink
      refine ⟨first ++ others, ?_⟩
      rw [Visit.handAll_cons, areOthers, isFirst, resolveAll_append]

/-- The pool an assembler leaves can be given to the next one. -/
theorem Reachable.ofPool (h : assembler.Reachable) : (ofPool assembler.pool).Reachable := by
  obtain ⟨requests, visits, rfl⟩ := h
  obtain ⟨more, isPool⟩ :=
    exists_requests_handAll (Assembler.ofPool (resolveAll requests ∅).2) visits
  refine ⟨requests ++ more, [], ?_⟩
  rw [resolveAll_append, isPool]
  rfl

/-- Code of any length up to the limit comes about, without any constants. -/
theorem Reachable.exists_size_eq (n : Nat) (room : n ≤ codeLimit) :
    ∃ assembler : Assembler, assembler.Reachable ∧ assembler.code.size = n ∧
      assembler.pool = ∅ := by
  induction n with
  | zero => exact ⟨empty, ⟨[], [], rfl⟩, rfl, rfl⟩
  | succ n ih =>
      obtain ⟨assembler, reachable, size, isPool⟩ := ih (Nat.le_of_succ_le room)
      have encoded : Instruction.nop.encode assembler.pool = .ok [0] assembler.pool := rfl
      have written : accept .nop assembler = .done (assembler.write [0]) := by
        rw [accept_of_encode_ok encoded, if_pos (by rw [size]; exact room)]
        rfl
      have next : (accept .nop assembler).sink.Reachable :=
        reachable.handAll [.instruction .nop]
      rw [written] at next
      refine ⟨assembler.write [0], next, ?_, isPool⟩
      rw [size_write, size]
      rfl

/-! ## What an instruction changes -/

/-- **An instruction is appended, or the code stays as it was.** An assembler in use has at most
65535 bytes of code. It accepts an instruction if and only if the pool has a place for its
constant, a call of an interface method has a descriptor with at most 255 slots of arguments, the
receiver included, and the code has at most 65535 bytes with the instruction. Then the bytes of the
instruction follow the code, as many as its place lets expect, and against the pool they are read
back as the instruction; nothing else of the method changes. If it refuses the instruction, code and
limits are as before; where only the length is to blame, it is told which length the code would have
had. Either way the pool has all its entries where they were. -/
theorem accepted_or_unchanged (h : assembler.Reachable) (instruction : Instruction) :
    let reply := accept instruction assembler
    let size := assembler.code.size
    size ≤ 65535 ∧
    (reply.outcome = .ok () ↔ ∃ place after, Placed assembler.pool instruction place after ∧
      instruction.CountsArguments ∧ size + instruction.length place ≤ 65535) ∧
    (reply.outcome = .ok () →
      ∃ place bytes, Placed assembler.pool instruction place reply.sink.pool ∧
        bytes.length = instruction.length place ∧ bytes ≠ [] ∧
        decodeAll reply.sink.pool bytes = some [instruction] ∧
        reply.sink.method = { assembler.method with code := assembler.code ++ bytes }) ∧
    (∀ error, reply.outcome = .error error → reply.sink.method = assembler.method) ∧
    (∀ length, reply.outcome = .error (.codeTooLong length) ↔
      ∃ place after bytes, Placed assembler.pool instruction place after ∧
        instruction.CountsArguments ∧ bytes.length = instruction.length place ∧
        decodeAll after bytes = some [instruction] ∧
        length = size + bytes.length ∧ 65535 < length) ∧
    assembler.pool.entries.toList <+: reply.sink.pool.entries.toList := by
  intro reply size
  obtain ⟨_, holds⟩ := h.exists_holds
  refine ⟨h.size_le, accept_ok_iff, exists_bytes_of_accepted holds.consistent, ?_, ?_, ?_⟩
  · intro error refused
    exact accept_error refused
  · intro length
    exact accept_codeTooLong_iff holds.consistent
  · exact entries_of_extends (accept_holds holds instruction).1

/-- There is room for two more bytes. An instruction of two bytes fills the code to its limit, one of
three bytes is refused. A call of an interface method with a descriptor that cannot be read leaves
the code alone as well, but the pool gets all six entries of the method. -/
theorem accepted_or_unchanged_full :
    let call : MethodCall := ⟨.interface, ⟨"a/B", by decide⟩, ⟨"f", by decide⟩, "(", true⟩
    ∃ assembler : Assembler, assembler.Reachable ∧ assembler.code.size = 65533 ∧
      (let filled := accept (.bipush 7) assembler
       filled.outcome = .ok () ∧ filled.sink.code.size = 65535) ∧
      (let tooLong := accept (.sipush 300) assembler
       tooLong.outcome = .error (.codeTooLong 65536) ∧ tooLong.sink.method = assembler.method) ∧
      (let unread := accept (.invoke call) assembler
       unread.outcome = .error (.badDescriptor "(") ∧ unread.sink.method = assembler.method ∧
        assembler.pool.size = 0 ∧ unread.sink.pool.size = 6) := by
  intro call
  obtain ⟨assembler, reachable, size, isPool⟩ := Reachable.exists_size_eq 65533 (by decide)
  have unreadRun : (match (Instruction.invoke call).encode ∅ with
      | .ok _ _ => False
      | .error error pool => error = .badDescriptor "(" ∧ pool.size = 6) := by
    unfold call
    cbv
  refine ⟨assembler, reachable, size, ?_, ?_, ?_⟩
  · intro filled
    obtain ⟨_, accepts, writes, _⟩ := accepted_or_unchanged reachable (.bipush 7)
    have accepted : filled.outcome = .ok () :=
      accepts.mpr ⟨⟨0⟩, assembler.pool, rfl, trivial, by rw [size]; decide⟩
    obtain ⟨place, bytes, _, counted, _, _, isMethod⟩ := writes accepted
    have isCode : filled.sink.code = assembler.code ++ bytes := congrArg MethodCode.code isMethod
    refine ⟨accepted, ?_⟩
    rw [isCode, size_append, size, counted]
    rfl
  · intro tooLong
    obtain ⟨_, _, _, unchanged, _, _⟩ := accepted_or_unchanged reachable (.sipush 300)
    have encoded : (Instruction.sipush 300).encode assembler.pool
        = .ok [0x11, 1, 44] assembler.pool := rfl
    have refused : tooLong.outcome = .error (.codeTooLong 65536) := by
      show (accept (.sipush 300) assembler).outcome = _
      rw [accept_of_encode_ok encoded, size, if_neg (by decide)]
      rfl
    exact ⟨refused, unchanged _ refused⟩
  · intro unread
    obtain ⟨_, _, _, unchanged, _, _⟩ := accepted_or_unchanged reachable (.invoke call)
    cases encoded : (Instruction.invoke call).encode ∅ with
    | ok bytes after =>
        rw [encoded] at unreadRun
        cases unreadRun
    | error error after =>
        rw [encoded] at unreadRun
        obtain ⟨rfl, grown⟩ := unreadRun
        have reply : unread = .refused { assembler with pool := after } (.badDescriptor "(") :=
          accept_of_encode_error (isPool ▸ encoded)
        have refused : unread.outcome = .error (.badDescriptor "(") := by rw [reply]; rfl
        refine ⟨refused, unchanged _ refused, by rw [isPool]; rfl, ?_⟩
        rw [reply]
        exact grown

end Assembler

end JvmCode
