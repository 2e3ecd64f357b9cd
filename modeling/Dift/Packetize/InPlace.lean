import Dift.Packetize.Cutting

/-!
Owns the loop of the two senders that build their packets in place: a local
array for the first packet, the caller's memory for all others, and a pointer
that moves from one to the other. Every write to the caller's memory is kept in
a list, so that a bound on the writes can be stated. The two members differ in
the reassembly header and in what they count; a variant says both. The loop is
shown to run in lockstep with its abstract job, although it overwrites data
that it has sent.
-/

namespace Dift.Packetize

open Dift.Foundation
open Dift.Wire

/-- Where a header is written: into the local array or into the caller's
memory. -/
inductive Pointer where
  | packetStorage (index : Nat)
  | caller (address : Nat)
deriving DecidableEq, Repr

def Pointer.plus : Pointer → Nat → Pointer
  | .packetStorage index, count => .packetStorage (index + count)
  | .caller address, count => .caller (address + count)

/-- Both memories, and the ranges of the caller's one that were written. -/
structure Buffers where
  packetStorage : Mem
  memory : Mem
  written : List (Nat × Nat)

namespace Buffers

/-- Let a function that writes `count` bytes write at a pointer. -/
def apply (buffers : Buffers) (pointer : Pointer) (count : Nat) (writer : Mem → Nat → Mem) :
    Buffers :=
  match pointer with
  | .packetStorage index =>
      { buffers with packetStorage := writer buffers.packetStorage index }
  | .caller address =>
      { buffers with
        memory := writer buffers.memory address
        written := buffers.written ++ [(address, count)] }

/-- The bytes behind a pointer. -/
def read (buffers : Buffers) (pointer : Pointer) (count : Nat) : List UInt8 :=
  match pointer with
  | .packetStorage index => buffers.packetStorage.read index count
  | .caller address => buffers.memory.read address count

/-- Write one block. -/
def write (buffers : Buffers) (pointer : Pointer) (block : List UInt8) : Buffers :=
  buffers.apply pointer block.length fun memory address => memory.write address block

/-- The caller's memory differs from what it was only where it was written. -/
def Framed (before : Mem) (buffers : Buffers) : Prop :=
  ∀ address, (∀ range ∈ buffers.written, ¬ (range.1 ≤ address ∧ address < range.1 + range.2)) →
    buffers.memory address = before address

theorem Framed.write {before : Mem} {buffers : Buffers} (framed : buffers.Framed before)
    (pointer : Pointer) (block : List UInt8) : (buffers.write pointer block).Framed before := by
  cases pointer with
  | packetStorage index => exact framed
  | caller start =>
      intro address free
      have here : ¬ (start ≤ address ∧ address < start + block.length) :=
        free (start, block.length) (by simp [Buffers.write, apply])
      have earlier := framed address fun range member =>
        free range (by simp [Buffers.write, apply, member])
      rw [← earlier]
      exact Memory.write_outside _ _ _ (by omega)

/-! ### One packet -/

variable (buffers : Buffers) (lb re : List UInt8)

/-- Both headers in the local array, followed by a copy of the data. -/
theorem read_first (block : List UInt8) (total : Nat)
    (size : total = block.length + (lb.length + re.length)) :
    (((buffers.write (.packetStorage 0) lb).write (.packetStorage (0 + lb.length)) re).write
        (.packetStorage (0 + (lb.length + re.length))) block).read (.packetStorage 0) total =
      lb ++ re ++ block := by
  have all : ((buffers.packetStorage.write 0 lb).write (0 + lb.length) re).write
      (0 + (lb.length + re.length)) block = buffers.packetStorage.write 0 (lb ++ re ++ block) := by
    rw [Memory.write_append, ← List.length_append, Memory.write_append]
  have length : total = (lb ++ re ++ block).length := by
    simp only [List.length_append]
    omega
  simp only [write, apply, read]
  rw [all, length, Memory.read_write_self]

/-- Both headers in the caller's memory right before data that is there. -/
theorem read_later (address count : Nat) (total : Nat)
    (size : total = count + (lb.length + re.length)) :
    ((buffers.write (.caller address) lb).write (.caller (address + lb.length)) re).read
        (.caller address) total =
      lb ++ re ++ buffers.memory.read (address + (lb.length + re.length)) count := by
  have order : total = (lb.length + re.length) + count := by omega
  have held := Memory.read_write_self buffers.memory address (lb ++ re)
  rw [List.length_append] at held
  simp only [write, apply, read]
  rw [Memory.write_append, order, Memory.read_add, held, Memory.read_write_disjoint]
  simp only [List.length_append]
  omega

/-- The data behind the headers is not touched. -/
theorem memory_later (address : Nat) {data count : Nat}
    (behind : address + (lb.length + re.length) ≤ data) :
    ((buffers.write (.caller address) lb).write (.caller (address + lb.length)) re).memory.read
        data count = buffers.memory.read data count := by
  simp only [write, apply]
  rw [Memory.write_append, Memory.read_write_disjoint]
  simp only [List.length_append]
  omega

end Buffers

/-! ### The loop -/

/-- What the two members do differently: the reassembly header, its writer and
the number in it. -/
structure Variant where
  reBytes : Nat
  setRe : Mem → Nat → UInt32 → Bool → Bool → Mem
  numbering : Numbering
  re : UInt32 → Bool → Bool → List UInt8
  re_length : ∀ counter first last, (re counter first last).length = reBytes
  setRe_eq : ∀ memory buffer counter first last,
    setRe memory buffer counter first last = memory.write buffer (re counter first last)

namespace InPlace

variable (variant : Variant)

structure State where
  counter : UInt32
  dataLen : Nat
  buffers : Buffers
  writeHeaderTo : Pointer
  maxUdpPayload : Int
  veryFirstPacket : Bool
  veryLastPacket : Bool
  firstLoop : Bool
  sentPackets : Nat
  delayCounter : UInt32
  attempts : Nat
  sent : List (List UInt8)

/-- What a call leaves behind, with the caller's memory, the ranges of it that
were written and the payload size in force at the end. -/
structure Outcome extends SendOutcome where
  memory : Mem
  written : List (Nat × Nat)
  maxUdpPayload : Int

def start (args : SendArgs) : State where
  counter := args.offset
  dataLen := args.dataLen
  buffers := ⟨args.stack, args.memory, []⟩
  writeHeaderTo := .packetStorage 0
  maxUdpPayload := args.maxUdpPayload
  veryFirstPacket := args.firstBuffer
  veryLastPacket := false
  firstLoop := true
  sentPackets := 0
  delayCounter := args.delayCounter
  attempts := 0
  sent := []

def State.count (state : State) : Nat :=
  bytesToWrite state.dataLen state.maxUdpPayload

/-- Is this the very last packet for all buffers? -/
def State.last (args : SendArgs) (state : State) : Bool :=
  state.veryLastPacket || (state.count == state.dataLen && args.lastBuffer)

/-- Both memories after the headers were written and, for the first packet,
the data copied. -/
def fill (args : SendArgs) (state : State) : Buffers :=
  let buffers := state.buffers.apply state.writeHeaderTo lbHeaderBytes fun memory address =>
    setLbMetadata args.host memory address args.tick args.version args.protocol args.entropy
  let buffers := buffers.apply (state.writeHeaderTo.plus lbHeaderBytes) variant.reBytes
    fun memory address =>
      variant.setRe memory address state.counter state.veryFirstPacket (state.last args)
  if state.firstLoop then
    buffers.apply (state.writeHeaderTo.plus (lbHeaderBytes + variant.reBytes)) state.count
      fun memory address => memory.write address (buffers.memory.read args.dataBuffer state.count)
  else buffers

/-- The bytes handed to the socket. -/
def handed (args : SendArgs) (state : State) : List UInt8 :=
  (fill variant args state).read state.writeHeaderTo
    (state.count + (lbHeaderBytes + variant.reBytes))

/-- Back to `startAgain` with a smaller payload; still in the first loop. -/
def State.retry (args : SendArgs) (state : State) : State :=
  { state with
    counter := variant.numbering.afterRefusal (variant.numbering.afterHeader state.counter)
    buffers := fill variant args state
    maxUdpPayload := reducePayload state.maxUdpPayload
    veryLastPacket := false
    attempts := state.attempts + 1 }

/-- On to the next packet, whose headers go right before its data. -/
def State.advance (args : SendArgs) (state : State) : State :=
  let writeHeaderTo :=
    if state.firstLoop then .caller (args.dataBuffer - (lbHeaderBytes + variant.reBytes))
    else state.writeHeaderTo
  { state with
    counter := variant.numbering.afterSend (variant.numbering.afterHeader state.counter) state.count
    dataLen := state.dataLen - state.count
    buffers := fill variant args state
    writeHeaderTo := writeHeaderTo.plus state.count
    veryFirstPacket := false
    veryLastPacket := state.last args
    firstLoop := false
    sentPackets := state.sentPackets + 1
    delayCounter := delayTick args.delay args.delayPrescale state.delayCounter
    attempts := state.attempts + 1
    sent := state.sent ++ [handed variant args state] }

def State.failure (args : SendArgs) (state : State) : Outcome where
  ret := -1
  offset := args.offset
  packetsSent := state.sentPackets
  delayCounter := state.delayCounter
  sent := state.sent
  memory := (fill variant args state).memory
  written := (fill variant args state).written
  maxUdpPayload := state.maxUdpPayload

def State.success (state : State) : Outcome where
  ret := 0
  offset := state.counter
  packetsSent := state.sentPackets
  delayCounter := state.delayCounter
  sent := state.sent
  memory := state.buffers.memory
  written := state.buffers.written
  maxUdpPayload := state.maxUdpPayload

def round (socket : Socket) (args : SendArgs) (state : State) : Round State Outcome :=
  if state.firstLoop ∨ 0 < state.dataLen then
    match socket.send state.attempts (handed variant args state) with
    | none => .again (state.advance variant args)
    | some errno =>
        if errno = .emsgsize ∧ state.veryFirstPacket then .again (state.retry variant args)
        else .leave (state.failure variant args)
  else .leave state.success

/-! ### The abstract sender -/

/-- A job that asks for what a call is asked for. -/
structure Serves (socket : Socket) (args : SendArgs) (job : Job) : Prop where
  data : job.data = args.data
  offset : job.offset = args.offset
  payload : job.maxUdpPayload = args.maxUdpPayload
  firstBuffer : job.firstBuffer = args.firstBuffer
  lastBuffer : job.lastBuffer = args.lastBuffer
  headers : ∀ counter first last, job.headers counter first last =
    lbHeader args.tick args.version args.protocol args.entropy ++ variant.re counter first last
  advance : job.advance = variant.numbering.advance
  answer : job.answer = socket.send

/-- Number of data bytes that have gone out. -/
def State.done (args : SendArgs) (state : State) : Nat :=
  args.dataLen - state.dataLen

/-- The sender's variables agree with the state of its job. In the first loop
everything is still to be sent, from the local array; after it the headers of
the next packet go right before its data. -/
structure Follows (args : SendArgs) (job : Job) (state : State) (abstract : Job.State) :
    Prop where
  counter : state.counter = abstract.counter
  remaining : state.dataLen = abstract.rest.length
  within : state.dataLen ≤ args.dataLen
  data : state.buffers.memory.read (args.dataBuffer + state.done args) state.dataLen =
    abstract.rest
  payload : state.maxUdpPayload = abstract.maxUdpPayload
  first : state.veryFirstPacket = abstract.first
  last : state.veryLastPacket = true → state.firstLoop = false ∧ state.dataLen = 0
  attempts : state.attempts = abstract.attempts
  packets : state.sentPackets = abstract.cuts.length
  sent : state.sent = abstract.cuts.map job.bytes
  inLoop : state.firstLoop = true → state.writeHeaderTo = .packetStorage 0 ∧
    state.dataLen = args.dataLen ∧ (abstract.firstLoop = true ∨ 0 < state.dataLen)
  pastLoop : state.firstLoop = false → abstract.firstLoop = false ∧ state.writeHeaderTo =
    .caller (args.dataBuffer + state.done args - (lbHeaderBytes + variant.reBytes))

variable {variant} {socket : Socket} {args : SendArgs} {job : Job}

theorem follows_start (serves : Serves variant socket args job) :
    Follows variant args job (start args) job.start where
  counter := serves.offset.symm
  remaining := by simp [start, Job.start, serves.data, SendArgs.data]
  within := le_rfl
  data := by simp [start, Job.start, State.done, serves.data, SendArgs.data]
  payload := serves.payload.symm
  first := serves.firstBuffer.symm
  last := by simp [start]
  attempts := rfl
  packets := rfl
  sent := rfl
  inLoop := fun _ => ⟨rfl, rfl, .inl rfl⟩
  pastLoop := by simp [start]

/-! ### One packet -/

/-- The load-balancer header of a call. -/
def lb (args : SendArgs) : List UInt8 :=
  lbHeader args.tick args.version args.protocol args.entropy

theorem lb_length (args : SendArgs) : (lb args).length = lbHeaderBytes :=
  lbHeader_length _ _ _ _

/-- The reassembly header of this round. -/
def State.re (variant : Variant) (args : SendArgs) (state : State) : List UInt8 :=
  variant.re state.counter state.veryFirstPacket (state.last args)

theorem re_length (state : State) : (state.re variant args).length = variant.reBytes :=
  variant.re_length _ _ _

private theorem headers_eq (buffers : Buffers) (pointer : Pointer) (state : State) :
    ((buffers.apply pointer lbHeaderBytes fun memory address =>
        setLbMetadata args.host memory address args.tick args.version args.protocol
          args.entropy).apply (pointer.plus lbHeaderBytes) variant.reBytes
      fun memory address =>
        variant.setRe memory address state.counter state.veryFirstPacket (state.last args)) =
    (buffers.write pointer (lb args)).write (pointer.plus (lb args).length)
      (state.re variant args) := by
  simp only [setLbMetadata_eq, variant.setRe_eq, Buffers.write, lb_length, re_length]
  rfl

/-- In the first loop the packet is built in the local array. -/
theorem fill_first {state : State} (inLoop : state.firstLoop = true)
    (pointer : state.writeHeaderTo = .packetStorage 0) :
    fill variant args state =
      ((state.buffers.write (.packetStorage 0) (lb args)).write
        (.packetStorage (0 + (lb args).length)) (state.re variant args)).write
        (.packetStorage (0 + ((lb args).length + (state.re variant args).length)))
        (state.buffers.memory.read args.dataBuffer state.count) := by
  unfold fill
  dsimp only
  rw [headers_eq, if_pos inLoop, pointer]
  simp only [Pointer.plus, lb_length, re_length, Buffers.write, Buffers.apply]

/-- The first packet is the headers and the data behind them. -/
theorem handed_first {state : State} (inLoop : state.firstLoop = true)
    (pointer : state.writeHeaderTo = .packetStorage 0) :
    handed variant args state =
      lb args ++ state.re variant args ++
        state.buffers.memory.read args.dataBuffer state.count := by
  rw [handed, fill_first inLoop pointer, pointer]
  apply Buffers.read_first
  rw [lb_length, re_length, Memory.read_length]

/-- Later the headers go into the caller's memory. -/
theorem fill_later {state : State} (pastLoop : state.firstLoop = false) {address : Nat}
    (pointer : state.writeHeaderTo = .caller address) :
    fill variant args state =
      (state.buffers.write (.caller address) (lb args)).write
        (.caller (address + (lb args).length)) (state.re variant args) := by
  unfold fill
  dsimp only
  rw [headers_eq, if_neg (by simp [pastLoop]), pointer]
  rfl

theorem count_le (state : State) : state.count ≤ state.dataLen :=
  bytesToWrite_le _ _

section Step

variable {state : State} {abstract : Job.State} (serves : Serves variant socket args job)
variable (scratch : lbHeaderBytes + variant.reBytes ≤ args.dataBuffer)
variable (follows : Follows variant args job state abstract)

include follows

theorem Follows.count : state.count = abstract.count := by
  rw [State.count, Job.State.count, follows.remaining, follows.payload]

/-- The data of the next packet, as it lies in the caller's memory. -/
theorem Follows.piece :
    state.buffers.memory.read (args.dataBuffer + state.done args) state.count =
      abstract.rest.take abstract.count := by
  rw [Memory.read_take follows.data (count_le state), follows.count]

include serves in
theorem Follows.last_eq (running : state.firstLoop = true ∨ 0 < state.dataLen) :
    state.last args = (abstract.count == abstract.rest.length && job.lastBuffer) := by
  have unmarked := flag_eq_false follows.last running
  rw [State.last, unmarked, Bool.false_or, follows.count, follows.remaining, serves.lastBuffer]

include serves scratch

/-- The bytes handed to the socket are those of the next cut. -/
theorem Follows.handed (running : state.firstLoop = true ∨ 0 < state.dataLen) :
    handed variant args state = job.bytes (job.next abstract) := by
  have expected : job.bytes (job.next abstract) = lb args ++ state.re variant args ++
      state.buffers.memory.read (args.dataBuffer + state.done args) state.count := by
    rw [follows.piece, Job.bytes, Job.next, serves.headers, State.re,
      follows.last_eq serves running, follows.counter, follows.first]
    rfl
  rw [expected]
  by_cases looping : state.firstLoop = true
  · rcases follows.inLoop looping with ⟨pointer, all, -⟩
    have begun : state.done args = 0 := by
      rw [State.done, all, Nat.sub_self]
    rw [handed_first looping pointer, begun, Nat.add_zero]
  · rcases follows.pastLoop (by simpa using looping) with ⟨-, pointer⟩
    have total : state.count + (lbHeaderBytes + variant.reBytes) =
        state.count + ((lb args).length + (state.re variant args).length) := by
      rw [lb_length, re_length]
    have place : args.dataBuffer + state.done args =
        args.dataBuffer + state.done args - (lbHeaderBytes + variant.reBytes) +
          ((lb args).length + (state.re variant args).length) := by
      rw [lb_length, re_length]
      omega
    rw [InPlace.handed, fill_later (by simpa using looping) pointer, pointer]
    conv_rhs => rw [place]
    exact Buffers.read_later _ _ _ _ _ _ total

omit serves in
/-- Building a packet leaves the data that is still to be sent as it is. -/
theorem Follows.data_fill :
    (fill variant args state).memory.read (args.dataBuffer + state.done args) state.dataLen =
      abstract.rest := by
  rw [← follows.data]
  by_cases looping : state.firstLoop = true
  · rcases follows.inLoop looping with ⟨pointer, -, -⟩
    rw [fill_first looping pointer]
    rfl
  · rcases follows.pastLoop (by simpa using looping) with ⟨-, pointer⟩
    rw [fill_later (by simpa using looping) pointer]
    apply Buffers.memory_later
    rw [lb_length, re_length]
    omega

omit serves in
theorem Follows.retry (left : 0 < state.dataLen) :
    Follows variant args job (state.retry variant args) abstract.retry where
  counter := by
    show variant.numbering.afterRefusal (variant.numbering.afterHeader state.counter) =
      abstract.counter
    rw [variant.numbering.refusal_undoes, follows.counter]
  remaining := follows.remaining
  within := follows.within
  data := by
    have held := follows.data_fill scratch
    exact held
  payload := by
    show reducePayload state.maxUdpPayload = reducePayload abstract.maxUdpPayload
    rw [follows.payload]
  first := follows.first
  last := by simp [State.retry]
  attempts := by simp [State.retry, Job.State.retry, follows.attempts]
  packets := follows.packets
  sent := follows.sent
  inLoop := fun looping => ⟨(follows.inLoop looping).1, (follows.inLoop looping).2.1, .inr left⟩
  pastLoop := fun past => ⟨rfl, (follows.pastLoop past).2⟩

theorem Follows.advance (running : state.firstLoop = true ∨ 0 < state.dataLen) :
    Follows variant args job (state.advance variant args) (job.send abstract) := by
  have le := count_le state
  have within := follows.within
  have next : (state.advance variant args).done args = state.done args + state.count := by
    simp only [State.done, State.advance]
    omega
  refine ⟨?_, ?_, ?_, ?_, follows.payload, rfl, ?_, ?_, ?_, ?_, by simp [State.advance], ?_⟩
  · show variant.numbering.afterSend (variant.numbering.afterHeader state.counter) state.count = _
    rw [variant.numbering.send_advances, follows.counter, follows.count, ← serves.advance]
    rfl
  · simp [State.advance, Job.send, follows.remaining, follows.count]
  · simp only [State.advance]
    omega
  · rw [next, ← Nat.add_assoc]
    have rest := Memory.read_drop (follows.data_fill scratch) le
    rw [follows.count] at rest ⊢
    simpa [State.advance, Job.send, follows.count] using rest
  · intro marked
    refine ⟨rfl, ?_⟩
    have ends : state.last args = true := marked
    rw [follows.last_eq serves running, Bool.and_eq_true, beq_iff_eq, ← follows.count,
      ← follows.remaining] at ends
    simp only [State.advance]
    omega
  · simp [State.advance, Job.send, follows.attempts]
  · simp [State.advance, Job.send, follows.packets]
  · simp [State.advance, Job.send, follows.sent, follows.handed serves scratch running]
  · intro _
    refine ⟨rfl, ?_⟩
    rw [next]
    by_cases looping : state.firstLoop = true
    · rcases follows.inLoop looping with ⟨-, all, -⟩
      have begun : state.done args = 0 := by
        rw [State.done, all, Nat.sub_self]
      simp only [State.advance, if_pos looping, Pointer.plus, begun, Pointer.caller.injEq]
      omega
    · rcases follows.pastLoop (by simpa using looping) with ⟨-, pointer⟩
      simp only [State.advance, if_neg looping, pointer, Pointer.plus, Pointer.caller.injEq]
      omega

end Step

/-- One round of the sender is one round of its job, on a socket that takes
small datagrams. -/
theorem round_follows (serves : Serves variant socket args job)
    (scratch : lbHeaderBytes + variant.reBytes ≤ args.dataBuffer) (tame : job.Tame)
    {state : State} {abstract : Job.State} (follows : Follows variant args job state abstract) :
    Round.Match (Follows variant args job)
      (fun outcome final => job.Reports outcome.toSendOutcome final)
      (round variant socket args state) (job.round abstract) := by
  have running : (state.firstLoop = true ∨ 0 < state.dataLen) ↔
      (abstract.firstLoop = true ∨ 0 < abstract.rest.length) := by
    rw [← follows.remaining]
    cases looping : state.firstLoop with
    | true =>
        rcases follows.inLoop looping with ⟨-, -, either⟩
        simp [either]
    | false => simp [(follows.pastLoop looping).1]
  refine Job.round_match running (fun runs => ?_) follows.first
    (fun runs => follows.advance serves scratch runs) (fun refused => ?_)
    ⟨rfl, serves.offset.symm, follows.packets, follows.sent⟩
    ⟨rfl, follows.counter, follows.packets, follows.sent⟩
  · rw [follows.handed serves scratch runs, ← serves.answer, follows.attempts]
  · have long := tame _ _ refused
    have left : 0 < state.dataLen := by
      have le := Job.count_le abstract
      rw [Job.bytes_length, Job.next, List.length_take, min_eq_left le] at long
      rw [follows.remaining]
      omega
    exact follows.retry scratch left

/-- The sender does what its job does. -/
theorem implements (serves : Serves variant socket args job)
    (scratch : lbHeaderBytes + variant.reBytes ≤ args.dataBuffer) (tame : job.Tame) :
    job.Implements fun outcome => ∃ result : Outcome,
      Returns (round variant socket args) (start args) result ∧ result.toSendOutcome = outcome :=
  Job.implements_of_lockstep Outcome.toSendOutcome (Follows variant args job)
    (fun _ _ follows => round_follows serves scratch tame follows) (follows_start serves)

/-! ### What is written -/

/-- Ranges of the caller's memory that begin at most the headers' size before
the second packet's data and end with the data. -/
def Ranged (variant : Variant) (args : SendArgs) (payload : Nat) (written : List (Nat × Nat)) :
    Prop :=
  ∀ range ∈ written, args.dataBuffer + payload ≤ range.1 + (lbHeaderBytes + variant.reBytes) ∧
    range.1 + range.2 ≤ args.dataBuffer + args.dataLen

/-- The invariant of the writes: once the first packet, of a full payload, has
gone out, headers only overwrite data that has been sent. -/
structure Bounded (variant : Variant) (args : SendArgs) (state : State) : Prop where
  payload : 0 ≤ state.maxUdpPayload ∧ state.maxUdpPayload ≤ args.maxUdpPayload
  framed : state.buffers.Framed args.memory
  ranged : Ranged variant args (toSize state.maxUdpPayload) state.buffers.written
  within : state.dataLen ≤ args.dataLen
  inLoop : state.firstLoop = true → state.buffers.written = [] ∧
    state.writeHeaderTo = .packetStorage 0 ∧ state.dataLen = args.dataLen
  pastLoop : state.firstLoop = false → state.veryFirstPacket = false ∧
    state.writeHeaderTo =
      .caller (args.dataBuffer + state.done args - (lbHeaderBytes + variant.reBytes)) ∧
    (0 < state.dataLen → toSize state.maxUdpPayload ≤ state.done args)

theorem bounded_start (variant : Variant) (nonneg : 0 ≤ args.maxUdpPayload) :
    Bounded variant args (start args) where
  payload := ⟨nonneg, le_rfl⟩
  framed := fun _ _ => rfl
  ranged := by simp [Ranged, start]
  within := le_rfl
  inLoop := fun _ => ⟨rfl, rfl, rfl⟩
  pastLoop := by simp [start]

section Writes

variable {state : State} (scratch : lbHeaderBytes + variant.reBytes ≤ args.dataBuffer)
variable (bounded : Bounded variant args state)

include bounded

theorem Bounded.framed_fill : (fill variant args state).Framed args.memory := by
  by_cases looping : state.firstLoop = true
  · rcases bounded.inLoop looping with ⟨-, pointer, -⟩
    rw [fill_first looping pointer]
    exact ((bounded.framed.write _ _).write _ _).write _ _
  · rcases bounded.pastLoop (by simpa using looping) with ⟨-, pointer, -⟩
    rw [fill_later (by simpa using looping) pointer]
    exact (bounded.framed.write _ _).write _ _

theorem Bounded.written_fill (looping : state.firstLoop = true) :
    (fill variant args state).written = [] := by
  rcases bounded.inLoop looping with ⟨unwritten, pointer, -⟩
  rw [fill_first looping pointer]
  exact unwritten

include scratch

theorem Bounded.ranged_fill (running : state.firstLoop = true ∨ 0 < state.dataLen) :
    Ranged variant args (toSize state.maxUdpPayload) (fill variant args state).written := by
  by_cases looping : state.firstLoop = true
  · rw [bounded.written_fill looping]
    simp [Ranged]
  · have left : 0 < state.dataLen := running.resolve_left looping
    rcases bounded.pastLoop (by simpa using looping) with ⟨-, pointer, sent⟩
    have enough := sent left
    have done : state.done args ≤ args.dataLen := Nat.sub_le _ _
    rw [fill_later (by simpa using looping) pointer]
    intro range member
    simp only [Buffers.write, Buffers.apply, lb_length, re_length, List.mem_append,
      List.mem_singleton] at member
    rcases member with (before | rfl) | rfl
    · exact bounded.ranged range before
    · constructor
      · show _ ≤ args.dataBuffer + state.done args - _ + _
        omega
      · show args.dataBuffer + state.done args - _ + lbHeaderBytes ≤ _
        omega
    · constructor
      · show _ ≤ args.dataBuffer + state.done args - _ + lbHeaderBytes + _
        omega
      · show args.dataBuffer + state.done args - _ + lbHeaderBytes + variant.reBytes ≤ _
        omega

theorem Bounded.advance (running : state.firstLoop = true ∨ 0 < state.dataLen) :
    Bounded variant args (state.advance variant args) := by
  have le := count_le state
  have within := bounded.within
  have next : (state.advance variant args).done args = state.done args + state.count := by
    simp only [State.done, State.advance]
    omega
  refine ⟨bounded.payload, bounded.framed_fill, bounded.ranged_fill scratch running, ?_,
    by simp [State.advance], ?_⟩
  · simp only [State.advance]
    omega
  · intro _
    rw [next]
    -- A packet that does not end the data carries a full payload.
    have full : 0 < state.dataLen - state.count → state.count = toSize state.maxUdpPayload := by
      intro left
      simp only [State.count, bytesToWrite] at left ⊢
      split_ifs at left ⊢ <;> omega
    by_cases looping : state.firstLoop = true
    · rcases bounded.inLoop looping with ⟨-, -, all⟩
      have begun : state.done args = 0 := by rw [State.done, all, Nat.sub_self]
      refine ⟨rfl, ?_, ?_⟩
      · simp only [State.advance, if_pos looping, Pointer.plus, begun, Pointer.caller.injEq]
        omega
      · intro left
        rw [begun, Nat.zero_add, full left]
        exact le_rfl
    · rcases bounded.pastLoop (by simpa using looping) with ⟨-, pointer, -⟩
      refine ⟨rfl, ?_, ?_⟩
      · simp only [State.advance, if_neg looping, pointer, Pointer.plus, Pointer.caller.injEq]
        omega
      · intro left
        show toSize state.maxUdpPayload ≤ _
        rw [← full left]
        omega

omit scratch in
theorem Bounded.retry (still : state.veryFirstPacket = true) :
    Bounded variant args (state.retry variant args) := by
  have looping : state.firstLoop = true := by
    by_contra past
    rcases bounded.pastLoop (by simpa using past) with ⟨notFirst, -⟩
    rw [notFirst] at still
    cases still
  rcases bounded.inLoop looping with ⟨-, pointer, all⟩
  have unwritten := bounded.written_fill looping
  refine ⟨?_, bounded.framed_fill, ?_, bounded.within, fun _ => ⟨unwritten, pointer, all⟩, ?_⟩
  · have before := bounded.payload
    simp only [State.retry, reducePayload]
    rw [Int.tdiv_eq_ediv_of_nonneg (by omega)]
    omega
  · show Ranged variant args _ (fill variant args state).written
    rw [unwritten]
    simp [Ranged]
  · intro past
    rw [show (state.retry variant args).firstLoop = state.firstLoop from rfl, looping] at past
    cases past

end Writes

/-- What the writes of a call amount to: the caller's memory is framed by the
list of ranges, and the ranges are bounded by the payload in force at the end. -/
structure Confined (variant : Variant) (args : SendArgs) (outcome : Outcome) : Prop where
  payload : 0 ≤ outcome.maxUdpPayload ∧ outcome.maxUdpPayload ≤ args.maxUdpPayload
  framed : Buffers.Framed args.memory ⟨args.stack, outcome.memory, outcome.written⟩
  ranged : Ranged variant args (toSize outcome.maxUdpPayload) outcome.written

theorem returns_confined (scratch : lbHeaderBytes + variant.reBytes ≤ args.dataBuffer)
    (nonneg : 0 ≤ args.maxUdpPayload) {outcome : Outcome}
    (returns : Returns (round variant socket args) (start args) outcome) :
    Confined variant args outcome := by
  refine returns.invariant (Bounded variant args) (Confined variant args) ?_ ?_
    (bounded_start variant nonneg)
  · intro before after bounded step
    unfold round at step
    split_ifs at step with running
    cases answered : socket.send before.attempts (handed variant args before) with
    | none =>
        simp only [answered, Round.again.injEq] at step
        exact step ▸ bounded.advance scratch running
    | some errno =>
        simp only [answered] at step
        split_ifs at step with retried
        simp only [Round.again.injEq] at step
        exact step ▸ bounded.retry retried.2
  · intro before final bounded step
    unfold round at step
    split_ifs at step with running
    · cases answered : socket.send before.attempts (handed variant args before) with
      | none => simp [answered] at step
      | some errno =>
          simp only [answered] at step
          split_ifs at step with retried
          simp only [Round.leave.injEq] at step
          exact step ▸ ⟨bounded.payload, bounded.framed_fill, bounded.ranged_fill scratch running⟩
    · simp only [Round.leave.injEq] at step
      exact step ▸ ⟨bounded.payload, bounded.framed, bounded.ranged⟩

end InPlace

end Dift.Packetize
