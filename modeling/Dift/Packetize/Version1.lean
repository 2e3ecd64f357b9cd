import Dift.Packetize.Copying
import Dift.Packetize.InPlace

/-!
Owns the four senders of version 1 packets: `sendPacketizedBufferSend` and
`sendPacketizedBufferSendto`, which copy, `sendPacketizedBufferSendmsg`, which
gathers the headers and the data with `int` arithmetic, and
`sendPacketizedBufferFast`, which works in place. All four are shown to do one
and the same abstract job.
-/

namespace Dift.Packetize

open Dift.Foundation
open Dift.Wire

namespace Version1

/-- Write both headers at the beginning of an array. -/
def setHeaders (args : SendArgs) (buffer : Mem) (packetCounter : UInt32)
    (veryFirstPacket veryLastPacket : Bool) : Mem :=
  let buffer := setLbMetadata args.host buffer 0 args.tick args.version args.protocol args.entropy
  setReMetadataOld args.host buffer lbHeaderBytes veryFirstPacket veryLastPacket args.tick
    packetCounter args.version args.dataId

/-- Both headers as bytes. -/
def headers (args : SendArgs) (packetCounter : UInt32) (first last : Bool) : List UInt8 :=
  lbHeader args.tick args.version args.protocol args.entropy ++
    reHeaderOld first last args.tick packetCounter args.version args.dataId

theorem headers_length (args : SendArgs) (packetCounter : UInt32) (first last : Bool) :
    (headers args packetCounter first last).length = headerBytesOld := by
  simp [headers, lbHeaderBytes, reHeaderBytesOld, headerBytesOld]

theorem setHeaders_eq (args : SendArgs) (buffer : Mem) (packetCounter : UInt32)
    (first last : Bool) :
    setHeaders args buffer packetCounter first last =
      buffer.write 0 (headers args packetCounter first last) := by
  have adjacent : lbHeaderBytes =
      0 + (lbHeader args.tick args.version args.protocol args.entropy).length := by simp
  rw [setHeaders, setLbMetadata_eq, setReMetadataOld_eq, adjacent, Memory.write_append]
  rfl

/-- The datagram of a cut. -/
def datagram (args : SendArgs) (cut : Cut) : List UInt8 :=
  headers args cut.counter cut.first cut.last ++ cut.data

/-- The job of a call, for the socket call a sender makes. -/
def job (call : Nat → List UInt8 → Option Errno) (args : SendArgs) : Job where
  data := args.data
  offset := args.offset
  maxUdpPayload := args.maxUdpPayload
  firstBuffer := args.firstBuffer
  lastBuffer := args.lastBuffer
  headerBytes := headerBytesOld
  headers := headers args
  headers_length := headers_length args
  advance := fun _ => 1
  answer := call

/-- The style of the two copying senders. -/
def style (args : SendArgs) (call : Nat → List UInt8 → Option Errno)
    (delayed : UInt32 → UInt32) : Copying.Style where
  headersSize := headerBytesOld
  setHeaders := setHeaders args
  numbering := .byPacket
  call := call
  delayed := delayed
  headers := headers args
  headers_length := headers_length args
  setHeaders_eq := setHeaders_eq args

/-- The header of the in-place sender. -/
def variant (args : SendArgs) : Variant where
  reBytes := reHeaderBytesOld
  setRe := fun memory buffer packetCounter first last =>
    setReMetadataOld args.host memory buffer first last args.tick packetCounter args.version
      args.dataId
  numbering := .byPacket
  re := fun packetCounter first last =>
    reHeaderOld first last args.tick packetCounter args.version args.dataId
  re_length := fun _ _ _ => reHeaderOld_length _ _ _ _ _ _
  setRe_eq := fun _ _ _ _ _ => setReMetadataOld_eq _ _ _ _ _ _ _ _ _

end Version1

/-- The sender that calls `send`, for at most `fuel` rounds of its loop. -/
def sendPacketizedBufferSend (socket : Socket) (args : SendArgs) (fuel : Nat) :
    Option SendOutcome :=
  iterate (Copying.round
    (Version1.style args socket.send (delayTick args.delay args.delayPrescale)) args) fuel
    (Copying.start args)

/-- The sender that calls `sendto`. It has no delay counter. -/
def sendPacketizedBufferSendto (socket : Socket) (args : SendArgs) (fuel : Nat) :
    Option SendOutcome :=
  iterate (Copying.round (Version1.style args socket.sendto fun delayCounter => delayCounter) args)
    fuel (Copying.start args)

/-- The sender that works in place. -/
def sendPacketizedBufferFast (socket : Socket) (args : SendArgs) (fuel : Nat) :
    Option InPlace.Outcome :=
  iterate (InPlace.round (Version1.variant args) socket args) fuel (InPlace.start args)

/-! ### The gathering sender -/

namespace Sendmsg

structure State where
  packetCounter : UInt32
  remainingBytes : Int
  totalDataBytesSent : Int
  getDataFrom : Int
  headerBuffer : Mem
  maxUdpPayload : Int
  veryFirstPacket : Bool
  veryLastPacket : Bool
  firstLoop : Bool
  sentPackets : Nat
  attempts : Nat
  sent : List (List UInt8)

/-- The length is converted to `int`. -/
def start (args : SendArgs) : State where
  packetCounter := args.offset
  remainingBytes := (args.dataLen : Int).bmod (2 ^ 32)
  totalDataBytesSent := 0
  getDataFrom := args.dataBuffer
  headerBuffer := args.stack
  maxUdpPayload := args.maxUdpPayload
  veryFirstPacket := args.firstBuffer
  veryLastPacket := false
  firstLoop := true
  sentPackets := 0
  attempts := 0
  sent := []

def State.bytesToWrite (state : State) : Int :=
  if state.remainingBytes > state.maxUdpPayload then state.maxUdpPayload else state.remainingBytes

def State.last (args : SendArgs) (state : State) : Bool :=
  state.veryLastPacket || (state.bytesToWrite == state.remainingBytes && args.lastBuffer)

/-- The header array of this round. -/
def fill (args : SendArgs) (state : State) : Mem :=
  Version1.setHeaders args state.headerBuffer state.packetCounter state.veryFirstPacket
    (state.last args)

/-- What the two `iovec`s gather. -/
def handed (args : SendArgs) (state : State) : List UInt8 :=
  (fill args state).read 0 headerBytesOld ++
    args.memory.read state.getDataFrom.toNat (toSize state.bytesToWrite)

def State.retry (args : SendArgs) (state : State) : State :=
  { state with
    packetCounter := state.packetCounter + 1 - 1
    firstLoop := false
    headerBuffer := fill args state
    maxUdpPayload := reducePayload state.maxUdpPayload
    veryLastPacket := false
    attempts := state.attempts + 1 }

def State.advance (args : SendArgs) (state : State) : State :=
  { state with
    packetCounter := state.packetCounter + 1
    firstLoop := false
    headerBuffer := fill args state
    veryLastPacket := state.last args
    sentPackets := state.sentPackets + 1
    totalDataBytesSent := state.totalDataBytesSent + state.bytesToWrite
    remainingBytes := state.remainingBytes - state.bytesToWrite
    getDataFrom := state.getDataFrom + state.bytesToWrite
    veryFirstPacket := false
    attempts := state.attempts + 1
    sent := state.sent ++ [handed args state] }

/-- What is returned; this sender has no delay counter. -/
def State.outcome (args : SendArgs) (state : State) (ret : Int) (offset : UInt32) :
    SendOutcome where
  ret := ret
  offset := offset
  packetsSent := state.sentPackets
  delayCounter := args.delayCounter
  sent := state.sent

def round (socket : Socket) (args : SendArgs) (state : State) : Round State SendOutcome :=
  if state.firstLoop ∨ 0 < state.remainingBytes then
    match socket.sendmsg state.attempts (handed args state) with
    | none => .again (state.advance args)
    | some errno =>
        if errno = .emsgsize ∧ state.veryFirstPacket then .again (state.retry args)
        else .leave (state.outcome args (-1) args.offset)
  else .leave (state.outcome args 0 state.packetCounter)

end Sendmsg

/-- The sender that calls `sendmsg`. -/
def sendPacketizedBufferSendmsg (socket : Socket) (args : SendArgs) (fuel : Nat) :
    Option SendOutcome :=
  iterate (Sendmsg.round socket args) fuel (Sendmsg.start args)

namespace Sendmsg

/-- The sender's variables agree with the state of its job; the numbers stay
where `int` and `size_t` agree. -/
structure Follows (socket : Socket) (args : SendArgs) (state : State) (abstract : Job.State) :
    Prop where
  counter : state.packetCounter = abstract.counter
  remaining : state.remainingBytes = abstract.rest.length
  pointer : 0 ≤ state.getDataFrom
  data : args.memory.read state.getDataFrom.toNat abstract.rest.length = abstract.rest
  payload : state.maxUdpPayload = abstract.maxUdpPayload
  payloadBounds : 0 ≤ state.maxUdpPayload ∧ state.maxUdpPayload ≤ 65500
  first : state.veryFirstPacket = abstract.first
  last : state.veryLastPacket = true → state.firstLoop = false ∧ state.remainingBytes = 0
  firstLoop : state.firstLoop = abstract.firstLoop
  attempts : state.attempts = abstract.attempts
  packets : state.sentPackets = abstract.cuts.length
  sent : state.sent = abstract.cuts.map (Version1.job socket.sendmsg args).bytes

variable {socket : Socket} {args : SendArgs}

theorem follows_start (short : args.dataLen < 2 ^ 31)
    (bounds : 1 ≤ args.maxUdpPayload ∧ args.maxUdpPayload ≤ 65500) :
    Follows socket args (start args) (Version1.job socket.sendmsg args).start where
  counter := rfl
  remaining := by
    have kept : (args.dataLen : Int).bmod (2 ^ 32) = args.dataLen := by
      rw [Int.bmod_eq_of_le] <;> omega
    simp only [start, kept, Job.start, Version1.job, SendArgs.data, Memory.read_length]
  pointer := by simp [start]
  data := by simp [start, Job.start, Version1.job, SendArgs.data]
  payload := rfl
  payloadBounds := ⟨by simp only [start]; omega, bounds.2⟩
  first := rfl
  last := by simp [start]
  firstLoop := rfl
  attempts := rfl
  packets := rfl
  sent := rfl

section Step

variable {state : State} {abstract : Job.State} (follows : Follows socket args state abstract)

include follows

theorem Follows.count : state.bytesToWrite = abstract.count := by
  have remaining := follows.remaining
  have bounds := follows.payloadBounds
  have size : toSize abstract.maxUdpPayload = state.maxUdpPayload.toNat := by
    rw [← follows.payload]
    exact toSize_of_nonneg (by omega) (by omega)
  simp only [State.bytesToWrite, Job.State.count, Packetize.bytesToWrite, size]
  split_ifs <;> omega

theorem Follows.last_eq (running : state.firstLoop = true ∨ 0 < state.remainingBytes) :
    state.last args = (abstract.count == abstract.rest.length && args.lastBuffer) := by
  have unmarked := flag_eq_false follows.last running
  have same : (state.bytesToWrite == state.remainingBytes) =
      (abstract.count == abstract.rest.length) := by
    rw [follows.count, follows.remaining, Bool.eq_iff_iff, beq_iff_eq, beq_iff_eq, Nat.cast_inj]
  rw [State.last, unmarked, Bool.false_or, same]

theorem Follows.size : toSize state.bytesToWrite = abstract.count := by
  have le := Job.count_le abstract
  have bounds := follows.payloadBounds
  have limit : state.bytesToWrite ≤ state.maxUdpPayload := by
    unfold State.bytesToWrite
    split_ifs <;> omega
  have count := follows.count
  rw [toSize_of_nonneg (by omega) (by omega)]
  omega

theorem Follows.handed (running : state.firstLoop = true ∨ 0 < state.remainingBytes) :
    handed args state =
      (Version1.job socket.sendmsg args).bytes
        ((Version1.job socket.sendmsg args).next abstract) := by
  have piece := Memory.read_take follows.data (Job.count_le abstract)
  have written : (fill args state).read 0 headerBytesOld =
      Version1.headers args state.packetCounter state.veryFirstPacket (state.last args) := by
    rw [fill, Version1.setHeaders_eq, ← Version1.headers_length args state.packetCounter
      state.veryFirstPacket (state.last args), Memory.read_write_self]
  rw [Sendmsg.handed, written, follows.size, piece, follows.last_eq running, follows.counter,
    follows.first]
  rfl

theorem Follows.retry : Follows socket args (state.retry args) abstract.retry where
  counter := by
    show state.packetCounter + 1 - 1 = abstract.counter
    rw [follows.counter]
    simp
  remaining := follows.remaining
  pointer := follows.pointer
  data := follows.data
  payload := by
    show reducePayload state.maxUdpPayload = reducePayload abstract.maxUdpPayload
    rw [follows.payload]
  payloadBounds := by
    have before := follows.payloadBounds
    simp only [State.retry, reducePayload]
    rw [Int.tdiv_eq_ediv_of_nonneg (by omega)]
    omega
  first := follows.first
  last := by simp [State.retry]
  firstLoop := rfl
  attempts := by simp [State.retry, Job.State.retry, follows.attempts]
  packets := follows.packets
  sent := follows.sent

theorem Follows.advance (running : state.firstLoop = true ∨ 0 < state.remainingBytes) :
    Follows socket args (state.advance args)
      ((Version1.job socket.sendmsg args).send abstract) where
  counter := by
    show state.packetCounter + 1 = _
    rw [follows.counter]
    rfl
  remaining := by
    have le := Job.count_le abstract
    simp only [State.advance, Job.send, follows.remaining, follows.count, List.length_drop]
    omega
  pointer := by
    have before := follows.pointer
    simp only [State.advance, follows.count]
    omega
  data := by
    have before := follows.pointer
    have rest := Memory.read_drop follows.data (Job.count_le abstract)
    have place : (state.getDataFrom + state.bytesToWrite).toNat =
        state.getDataFrom.toNat + abstract.count := by
      rw [follows.count]
      omega
    simp only [State.advance, Job.send, place, List.length_drop]
    exact rest
  payload := follows.payload
  payloadBounds := follows.payloadBounds
  first := rfl
  last := by
    intro marked
    have ends : state.last args = true := marked
    rw [follows.last_eq running, Bool.and_eq_true, beq_iff_eq] at ends
    refine ⟨rfl, ?_⟩
    simp only [State.advance, follows.count, follows.remaining]
    omega
  firstLoop := rfl
  attempts := by simp [State.advance, Job.send, follows.attempts]
  packets := by simp [State.advance, Job.send, follows.packets]
  sent := by simp [State.advance, Job.send, follows.sent, follows.handed running]

end Step

theorem round_follows {state : State} {abstract : Job.State}
    (follows : Follows socket args state abstract) :
    Round.Match (Follows socket args) (Job.Reports (Version1.job socket.sendmsg args))
      (round socket args state) ((Version1.job socket.sendmsg args).round abstract) := by
  have running : (state.firstLoop = true ∨ 0 < state.remainingBytes) ↔
      (abstract.firstLoop = true ∨ 0 < abstract.rest.length) := by
    rw [follows.firstLoop, follows.remaining, Nat.cast_pos]
  refine Job.round_match running (fun runs => ?_) follows.first follows.advance
    (fun _ => follows.retry) ⟨rfl, rfl, follows.packets, follows.sent⟩
    ⟨rfl, follows.counter, follows.packets, follows.sent⟩
  rw [follows.handed runs, follows.attempts]
  rfl

/-- The sender does what its job does. -/
theorem implements (socket : Socket) (short : args.dataLen < 2 ^ 31)
    (bounds : 1 ≤ args.maxUdpPayload ∧ args.maxUdpPayload ≤ 65500) :
    (Version1.job socket.sendmsg args).Implements fun outcome =>
      Returns (round socket args) (start args) outcome := by
  have lockstep := Job.implements_of_lockstep id (Follows socket args)
    (fun _ _ follows => round_follows follows) (follows_start short bounds)
  simpa using lockstep

end Sendmsg

/-! ### Four senders, one job -/

/-- The four senders. -/
inductive OldSender where
  | fast
  | send
  | sendto
  | sendmsg
deriving DecidableEq, Repr

/-- A call of a sender ends with the given outcome. -/
def OldSender.Returns (sender : OldSender) (socket : Socket) (args : SendArgs)
    (outcome : SendOutcome) : Prop :=
  match sender with
  | .fast => ∃ result, (∃ fuel, sendPacketizedBufferFast socket args fuel = some result) ∧
      result.toSendOutcome = outcome
  | .send => ∃ fuel, sendPacketizedBufferSend socket args fuel = some outcome
  | .sendto => ∃ fuel, sendPacketizedBufferSendto socket args fuel = some outcome
  | .sendmsg => ∃ fuel, sendPacketizedBufferSendmsg socket args fuel = some outcome

namespace Version1

/-- The arguments all four senders can be called with: there is room for a
header before the data, the length is an `int` and the payload fits a packet. -/
structure Callable (args : SendArgs) : Prop where
  scratch : headerBytesOld ≤ args.dataBuffer
  short : args.dataLen < 2 ^ 31
  bounds : 1 ≤ args.maxUdpPayload ∧ args.maxUdpPayload ≤ 65500

/-- The job of a call on a socket with a size limit. -/
def limitedJob (limit : Nat) (args : SendArgs) : Job :=
  job (fun _ datagram => acceptUpTo limit datagram) args

theorem tame_limitedJob {limit : Nat} (large : 35 ≤ limit) (args : SendArgs) :
    (limitedJob limit args).Tame := by
  intro attempts bytes refused
  by_contra short
  apply refused
  have headers : (limitedJob limit args).headerBytes = 34 := rfl
  rw [headers] at short
  show acceptUpTo limit bytes = none
  rw [acceptUpTo, if_pos (by omega)]

theorem serves_job (socket : Socket) (args : SendArgs) :
    InPlace.Serves (variant args) socket args (job socket.send args) where
  data := rfl
  offset := rfl
  payload := rfl
  firstBuffer := rfl
  lastBuffer := rfl
  headers := fun _ _ _ => rfl
  advance := rfl
  answer := rfl

/-- Each of the four senders does the job of its call. -/
theorem implements {limit : Nat} (large : 35 ≤ limit) {args : SendArgs} (callable : Callable args)
    (sender : OldSender) :
    (limitedJob limit args).Implements (sender.Returns (.limited limit) args) := by
  cases sender with
  | fast =>
      exact InPlace.implements (serves_job (.limited limit) args) callable.scratch
        (tame_limitedJob large args)
  | send => exact Copying.implements (style args (Socket.limited limit).send _) args
  | sendto => exact Copying.implements (style args (Socket.limited limit).sendto _) args
  | sendmsg => exact Sendmsg.implements (.limited limit) callable.short callable.bounds

end Version1

end Dift.Packetize
