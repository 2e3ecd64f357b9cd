import Dift.Packetize.Cutting

/-!
Owns the loop of the three senders that copy headers and data of each packet
into an array of their own: it reads the caller's memory and never writes it.
The members differ in the headers, in what they count, in the socket call and
in the delay; a style says all of that. The loop is shown to run in lockstep
with its abstract job on every socket.
-/

namespace Dift.Packetize

open Dift.Foundation
open Dift.Wire

namespace Copying

/-- What the members do differently. `setHeaders` writes the headers at the
beginning of the packet array, `call` is the socket call and `delayed` what the
delay code does to the delay counter. -/
structure Style where
  headersSize : Nat
  setHeaders : Mem → UInt32 → Bool → Bool → Mem
  numbering : Numbering
  call : Nat → List UInt8 → Option Errno
  delayed : UInt32 → UInt32
  headers : UInt32 → Bool → Bool → List UInt8
  headers_length : ∀ counter first last, (headers counter first last).length = headersSize
  setHeaders_eq : ∀ memory counter first last,
    setHeaders memory counter first last = memory.write 0 (headers counter first last)

/-- The variables of the loop. `attempts` counts the socket calls. -/
structure State where
  counter : UInt32
  remainingBytes : Nat
  totalDataBytesSent : Nat
  getDataFrom : Nat
  buffer : Mem
  maxUdpPayload : Int
  veryFirstPacket : Bool
  veryLastPacket : Bool
  firstLoop : Bool
  sentPackets : Nat
  delayCounter : UInt32
  attempts : Nat
  sent : List (List UInt8)

def start (args : SendArgs) : State where
  counter := args.offset
  remainingBytes := args.dataLen
  totalDataBytesSent := 0
  getDataFrom := args.dataBuffer
  buffer := args.stack
  maxUdpPayload := args.maxUdpPayload
  veryFirstPacket := args.firstBuffer
  veryLastPacket := false
  firstLoop := true
  sentPackets := 0
  delayCounter := args.delayCounter
  attempts := 0
  sent := []

/-- Data bytes of the packet of this round. -/
def State.count (state : State) : Nat :=
  bytesToWrite state.remainingBytes state.maxUdpPayload

/-- Is this the very last packet for all buffers? -/
def State.last (args : SendArgs) (state : State) : Bool :=
  state.veryLastPacket || (state.count == state.remainingBytes && args.lastBuffer)

variable (style : Style)

/-- The packet array after the headers and the data were copied into it. -/
def fill (args : SendArgs) (state : State) : Mem :=
  (style.setHeaders state.buffer state.counter state.veryFirstPacket (state.last args)).write
    style.headersSize (args.memory.read state.getDataFrom state.count)

/-- The bytes handed to the socket. -/
def handed (args : SendArgs) (state : State) : List UInt8 :=
  (fill style args state).read 0 (state.count + style.headersSize)

/-- Back to `startAgain` with a smaller payload. -/
def State.retry (args : SendArgs) (state : State) : State :=
  { state with
    counter := style.numbering.afterRefusal (style.numbering.afterHeader state.counter)
    firstLoop := false
    buffer := fill style args state
    maxUdpPayload := reducePayload state.maxUdpPayload
    veryLastPacket := false
    attempts := state.attempts + 1 }

/-- On to the next packet. -/
def State.advance (args : SendArgs) (state : State) : State :=
  { state with
    counter := style.numbering.afterSend (style.numbering.afterHeader state.counter) state.count
    firstLoop := false
    buffer := fill style args state
    veryLastPacket := state.last args
    sentPackets := state.sentPackets + 1
    delayCounter := style.delayed state.delayCounter
    totalDataBytesSent := state.totalDataBytesSent + state.count
    remainingBytes := state.remainingBytes - state.count
    getDataFrom := state.getDataFrom + state.count
    veryFirstPacket := false
    attempts := state.attempts + 1
    sent := state.sent ++ [handed style args state] }

/-- Return -1; `*offset` keeps the value passed in. -/
def State.failure (args : SendArgs) (state : State) : SendOutcome where
  ret := -1
  offset := args.offset
  packetsSent := state.sentPackets
  delayCounter := state.delayCounter
  sent := state.sent

/-- Return 0. -/
def State.success (state : State) : SendOutcome where
  ret := 0
  offset := state.counter
  packetsSent := state.sentPackets
  delayCounter := state.delayCounter
  sent := state.sent

/-- One round of the loop, from the test at `startAgain` on. -/
def round (args : SendArgs) (state : State) : Round State SendOutcome :=
  if state.firstLoop ∨ 0 < state.remainingBytes then
    match style.call state.attempts (handed style args state) with
    | none => .again (state.advance style args)
    | some errno =>
        if errno = .emsgsize ∧ state.veryFirstPacket then .again (state.retry style args)
        else .leave (state.failure args)
  else .leave state.success

/-! ### The abstract sender -/

/-- The job of a call. -/
def job (args : SendArgs) : Job where
  data := args.data
  offset := args.offset
  maxUdpPayload := args.maxUdpPayload
  firstBuffer := args.firstBuffer
  lastBuffer := args.lastBuffer
  headerBytes := style.headersSize
  headers := style.headers
  headers_length := style.headers_length
  advance := style.numbering.advance
  answer := style.call

/-- The sender's variables agree with the state of its job. The flag for the
very last packet is up only when nothing is left to send. -/
structure Follows (args : SendArgs) (state : State) (abstract : Job.State) : Prop where
  counter : state.counter = abstract.counter
  remaining : state.remainingBytes = abstract.rest.length
  data : args.memory.read state.getDataFrom state.remainingBytes = abstract.rest
  payload : state.maxUdpPayload = abstract.maxUdpPayload
  first : state.veryFirstPacket = abstract.first
  last : state.veryLastPacket = true → state.firstLoop = false ∧ state.remainingBytes = 0
  firstLoop : state.firstLoop = abstract.firstLoop
  attempts : state.attempts = abstract.attempts
  packets : state.sentPackets = abstract.cuts.length
  sent : state.sent = abstract.cuts.map (job style args).bytes

variable {style} {args : SendArgs}

theorem follows_start (style : Style) (args : SendArgs) :
    Follows style args (start args) (job style args).start where
  counter := rfl
  remaining := by simp [start, Job.start, job, SendArgs.data]
  data := rfl
  payload := rfl
  first := rfl
  last := by simp [start]
  firstLoop := rfl
  attempts := rfl
  packets := rfl
  sent := rfl

/-- What is handed to the socket depends on nothing that was in the packet
array before. -/
theorem handed_eq (state : State) :
    handed style args state =
      style.headers state.counter state.veryFirstPacket (state.last args) ++
        args.memory.read state.getDataFrom state.count := by
  have size := style.headers_length state.counter state.veryFirstPacket (state.last args)
  have adjacent : style.headersSize =
      0 + (style.headers state.counter state.veryFirstPacket (state.last args)).length := by
    rw [size, Nat.zero_add]
  have total : state.count + style.headersSize =
      (style.headers state.counter state.veryFirstPacket (state.last args) ++
        args.memory.read state.getDataFrom state.count).length := by
    rw [List.length_append, size, Memory.read_length, Nat.add_comm]
  rw [handed, total, fill, style.setHeaders_eq, adjacent, Memory.write_append,
    Memory.read_write_self]

theorem count_le (state : State) : state.count ≤ state.remainingBytes :=
  bytesToWrite_le _ _

section Step

variable {state : State} {abstract : Job.State} (follows : Follows style args state abstract)

include follows

theorem Follows.count : state.count = abstract.count := by
  rw [State.count, Job.State.count, follows.remaining, follows.payload]

theorem Follows.last_eq (running : state.firstLoop = true ∨ 0 < state.remainingBytes) :
    state.last args = (abstract.count == abstract.rest.length && args.lastBuffer) := by
  have unmarked := flag_eq_false follows.last running
  rw [State.last, unmarked, Bool.false_or, follows.count, follows.remaining]

theorem Follows.handed (running : state.firstLoop = true ∨ 0 < state.remainingBytes) :
    handed style args state = (job style args).bytes ((job style args).next abstract) := by
  have piece := Memory.read_take follows.data (count_le state)
  rw [handed_eq, piece, follows.last_eq running, follows.counter, follows.first, follows.count]
  rfl

theorem Follows.retry : Follows style args (state.retry style args) abstract.retry where
  counter := by
    show style.numbering.afterRefusal (style.numbering.afterHeader state.counter) = _
    rw [style.numbering.refusal_undoes, follows.counter]
    rfl
  remaining := follows.remaining
  data := follows.data
  payload := by
    show reducePayload state.maxUdpPayload = reducePayload abstract.maxUdpPayload
    rw [follows.payload]
  first := follows.first
  last := by simp [State.retry]
  firstLoop := rfl
  attempts := by simp [State.retry, Job.State.retry, follows.attempts]
  packets := follows.packets
  sent := follows.sent

theorem Follows.advance (running : state.firstLoop = true ∨ 0 < state.remainingBytes) :
    Follows style args (state.advance style args) ((job style args).send abstract) where
  counter := by
    show style.numbering.afterSend (style.numbering.afterHeader state.counter) state.count = _
    rw [style.numbering.send_advances, follows.counter, follows.count]
    rfl
  remaining := by
    simp [State.advance, Job.send, follows.remaining, follows.count]
  data := by
    have rest := Memory.read_drop follows.data (count_le state)
    simpa [State.advance, Job.send, follows.count] using rest
  payload := follows.payload
  first := rfl
  last := by
    intro marked
    have ends : state.last args = true := marked
    rw [follows.last_eq running, Bool.and_eq_true, beq_iff_eq, ← follows.count,
      ← follows.remaining] at ends
    refine ⟨rfl, ?_⟩
    simp only [State.advance]
    omega
  firstLoop := rfl
  attempts := by simp [State.advance, Job.send, follows.attempts]
  packets := by simp [State.advance, Job.send, follows.packets]
  sent := by simp [State.advance, Job.send, follows.sent, follows.handed running]

end Step

/-- One round of the sender is one round of its job. -/
theorem round_follows {state : State} {abstract : Job.State}
    (follows : Follows style args state abstract) :
    Round.Match (Follows style args) (Job.Reports (job style args))
      (round style args state) ((job style args).round abstract) := by
  have running : (state.firstLoop = true ∨ 0 < state.remainingBytes) ↔
      (abstract.firstLoop = true ∨ 0 < abstract.rest.length) := by
    rw [follows.firstLoop, follows.remaining]
  refine Job.round_match running (fun runs => ?_) follows.first follows.advance
    (fun _ => follows.retry) ⟨rfl, rfl, follows.packets, follows.sent⟩
    ⟨rfl, follows.counter, follows.packets, follows.sent⟩
  rw [follows.handed runs, follows.attempts]
  rfl

/-- The sender does what its job does. -/
theorem implements (style : Style) (args : SendArgs) :
    (job style args).Implements fun outcome => Returns (round style args) (start args) outcome := by
  have lockstep := Job.implements_of_lockstep id (Follows style args)
    (fun _ _ follows => round_follows follows) (follows_start style args)
  simpa using lockstep

end Copying

end Dift.Packetize
