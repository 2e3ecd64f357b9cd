import Dift.Assemble.Allocated
import Dift.Assemble.Sessions

/-!
Owns `getPacketizedBuffer`, which reads a large buffer in stages: each call
fills one buffer of the caller with packets in order and passes the next offset
on. It asks for room for one jumbo frame before it reads, but `recvfrom` may
give up to 65536 bytes: the copies stay inside the buffer exactly as long as
the data of the call fits it.
-/

namespace Dift.Assemble

open Dift.Foundation
open Dift.Wire

def outOfOrder : Int := -4
def noReassembly : Int := -8

/-- The arguments of a call. `last`, `srcId`, `tick`, `offset` and `packetCount`
are what the pointers point at before, `packetTick` is what the local variable
holds that has no initial value. -/
structure PacketizedArgs where
  host : ByteOrder
  dataBuf : Mem
  bufLen : UInt64
  veryFirstRead : Bool
  last : Bool
  srcId : UInt16
  tick : UInt64
  offset : UInt32
  packetCount : UInt32
  packetTick : UInt64

/-- What a call leaves behind: the returned value, the buffer's memory and what
the pointers point at. -/
structure PacketizedOutcome where
  ret : Int
  dataBuf : Mem
  last : Bool
  srcId : UInt16
  tick : UInt64
  offset : UInt32
  packetCount : UInt32

namespace Packetized

/-- The variables that live across rounds; `srcId` is `*srcId`. -/
structure State where
  dataBuf : Mem
  veryFirstRead : Bool
  srcId : UInt16
  firstSrcId : UInt16
  firstTick : UInt64
  packetTick : UInt64
  rejectedPkt : Nat
  pktCount : UInt32
  totalBytesRead : Int
  remainingLen : UInt64
  nextOffset : UInt32

def start (args : PacketizedArgs) : State where
  dataBuf := args.dataBuf
  veryFirstRead := args.veryFirstRead
  srcId := args.srcId
  firstSrcId := args.srcId
  firstTick := args.tick
  packetTick := args.packetTick
  rejectedPkt := 0
  pktCount := 0
  totalBytesRead := 0
  remainingLen := args.bufLen
  nextOffset := args.offset

/-- Return an error: only the buffer and `*srcId` may have changed. -/
def State.error (args : PacketizedArgs) (state : State) (code : Int) : PacketizedOutcome where
  ret := code
  dataBuf := state.dataBuf
  last := args.last
  srcId := state.srcId
  tick := args.tick
  offset := args.offset
  packetCount := args.packetCount

/-- Leave the loop and return the number of bytes read. -/
def State.done (state : State) (last : Bool) : PacketizedOutcome where
  ret := state.totalBytesRead
  dataBuf := state.dataBuf
  last := last
  srcId := state.srcId
  tick := state.packetTick
  offset := state.nextOffset
  packetCount := state.pktCount

/-- The beginning of a round: without room for a full, jumbo packet the loop is
left. -/
def checkRoom (args : PacketizedArgs) (state : State) : Round State PacketizedOutcome :=
  if state.remainingLen < UInt64.ofNat maxEjfatMtu then .leave (state.done args.last)
  else .again state

/-- What the tests on a header come to. -/
inductive Plan where
  | outOfOrder
  | reject (next : State)
  | copy (ready : State)

/-- The tests on a header: the offset first, then the source and the tick. -/
def plan (state : State) (header : ReFields) : Plan :=
  let state := { state with packetTick := header.tick }
  if state.veryFirstRead then
    if header.offset ≠ 0 then .outOfOrder
    else
      .copy { state with
        firstSrcId := header.dataId
        srcId := header.dataId
        firstTick := header.tick }
  else if header.offset ≠ state.nextOffset then .outOfOrder
  else if header.dataId ≠ state.firstSrcId ∨ header.tick ≠ state.firstTick then
    .reject { state with rejectedPkt := state.rejectedPkt + 1 }
  else .copy state

/-- Where the data of a packet goes in the buffer. -/
def offsetLocal (args : PacketizedArgs) (header : ReFields) : UInt32 :=
  header.offset - args.offset

/-- The variables after a packet was copied. -/
def State.copied (args : PacketizedArgs) (state : State) (header : ReFields)
    (payload : List UInt8) : State :=
  { state with
    dataBuf := state.dataBuf.write (offsetLocal args header).toNat payload
    totalBytesRead := state.totalBytesRead + payload.length
    veryFirstRead := false
    remainingLen := state.remainingLen - UInt64.ofNat payload.length
    pktCount := state.pktCount + 1
    nextOffset := header.offset + UInt32.ofNat payload.length }

/-- A packet that holds a header, and the beginning of the next round. -/
def handle (args : PacketizedArgs) (state : State) (header : ReFields) (payload : List UInt8) :
    Round State PacketizedOutcome :=
  match plan state header with
  | .outOfOrder => .leave (state.error args outOfOrder)
  | .reject next =>
      if next.rejectedPkt ≥ 100 then .leave (next.error args noReassembly)
      else checkRoom args next
  | .copy ready =>
      let copied := ready.copied args header payload
      if copied.nextOffset ≥ header.length then .leave (copied.done true)
      else checkRoom args copied

/-- One `recvfrom` and what follows it. -/
def round (args : PacketizedArgs) (state : State) : Recv → Round State PacketizedOutcome
  | .failed => .leave (state.error args recvMsg)
  | .datagram bytes =>
      if (bytes.take 65536).length < reHeaderBytes then .leave (state.error args internalError)
      else
        handle args state (Complete.arrivedHeader args.host bytes) (Complete.arrivedPayload bytes)

end Packetized

/-- A call reading from the given `recvfrom` results. -/
def getPacketizedBuffer (args : PacketizedArgs) (socket : List Recv) :
    Fed Packetized.State PacketizedOutcome Recv :=
  match Packetized.checkRoom args (Packetized.start args) with
  | .leave outcome => .left outcome socket
  | .again state => feed (Packetized.round args) state socket

namespace Packetized

/-- Every round of a call meets a condition on the state before it and what it
reads. -/
def AlongCall (args : PacketizedArgs) (Meets : State → Recv → Prop) (socket : List Recv) : Prop :=
  match checkRoom args (start args) with
  | .leave _ => True
  | .again state => Along (round args) Meets state socket

variable {args : PacketizedArgs}

/-! ### What a round leads to -/

theorem checkRoom_of_lt {state : State}
    (full : state.remainingLen < UInt64.ofNat maxEjfatMtu) :
    checkRoom args state = .leave (state.done args.last) :=
  if_pos full

theorem checkRoom_of_not_lt {state : State}
    (room : ¬ state.remainingLen < UInt64.ofNat maxEjfatMtu) :
    checkRoom args state = .again state :=
  if_neg room

theorem checkRoom_again {state next : State} (step : checkRoom args state = .again next) :
    next = state ∧ maxEjfatMtu ≤ state.remainingLen.toNat := by
  unfold checkRoom at step
  split_ifs at step with full
  cases step
  refine ⟨rfl, ?_⟩
  rw [UInt64.lt_iff_toNat_lt] at full
  exact not_lt.mp full

theorem checkRoom_leave {state : State} {outcome : PacketizedOutcome}
    (step : checkRoom args state = .leave outcome) : outcome = state.done args.last := by
  unfold checkRoom at step
  split_ifs at step
  cases step
  rfl

theorem plan_first {state : State} {header : ReFields} (first : state.veryFirstRead = true)
    (zero : header.offset = 0) :
    plan state header = .copy { state with
      packetTick := header.tick
      firstSrcId := header.dataId
      srcId := header.dataId
      firstTick := header.tick } := by
  simp [plan, first, zero]

theorem plan_expected {state : State} {header : ReFields} (past : state.veryFirstRead = false)
    (expected : header.offset = state.nextOffset) (source : header.dataId = state.firstSrcId)
    (tick : header.tick = state.firstTick) :
    plan state header = .copy { state with packetTick := header.tick } := by
  simp [plan, past, expected, source, tick]

theorem plan_foreign {state : State} {header : ReFields} (past : state.veryFirstRead = false)
    (expected : header.offset = state.nextOffset)
    (foreign : header.dataId ≠ state.firstSrcId ∨ header.tick ≠ state.firstTick) :
    plan state header = .reject { state with
      packetTick := header.tick
      rejectedPkt := state.rejectedPkt + 1 } := by
  simp [plan, past, expected, foreign]

theorem plan_unexpected {state : State} {header : ReFields} (past : state.veryFirstRead = false)
    (unexpected : header.offset ≠ state.nextOffset) : plan state header = .outOfOrder := by
  simp [plan, past, unexpected]

/-- A packet is copied when it is the first one and starts at offset 0, or when
it has the expected offset, source and tick. -/
theorem plan_copy {state ready : State} {header : ReFields}
    (planned : plan state header = .copy ready) :
    (state.veryFirstRead = true ∧ header.offset = 0 ∧
      ready = { state with
        packetTick := header.tick
        firstSrcId := header.dataId
        srcId := header.dataId
        firstTick := header.tick }) ∨
    (state.veryFirstRead = false ∧ header.offset = state.nextOffset ∧
      header.dataId = state.firstSrcId ∧ header.tick = state.firstTick ∧
      ready = { state with packetTick := header.tick }) := by
  unfold plan at planned
  dsimp only at planned
  split_ifs at planned with first zero expected foreign
  · cases planned
    exact .inl ⟨first, not_not.mp zero, rfl⟩
  · cases planned
    rw [not_or, not_not, not_not] at foreign
    exact .inr ⟨by simpa using first, not_not.mp expected, foreign.1, foreign.2, rfl⟩

theorem plan_reject {state next : State} {header : ReFields}
    (planned : plan state header = .reject next) :
    state.veryFirstRead = false ∧ header.offset = state.nextOffset ∧
      (header.dataId ≠ state.firstSrcId ∨ header.tick ≠ state.firstTick) ∧
      next = { state with
        packetTick := header.tick
        rejectedPkt := state.rejectedPkt + 1 } := by
  unfold plan at planned
  dsimp only at planned
  split_ifs at planned with first zero expected foreign
  cases planned
  exact ⟨by simpa using first, not_not.mp expected, foreign, rfl⟩

/-- The call ends with the packet that completes the data, or when there is no
room for another one. -/
theorem handle_copy {state ready : State} {header : ReFields} {payload : List UInt8}
    (planned : plan state header = .copy ready) :
    handle args state header payload =
      if header.offset + UInt32.ofNat payload.length ≥ header.length then
        .leave ((ready.copied args header payload).done true)
      else checkRoom args (ready.copied args header payload) := by
  unfold handle
  rw [planned]
  rfl

/-- A round goes on after a packet that was passed over, or after one that was
copied. -/
theorem round_again {state after : State} {recv : Recv}
    (step : round args state recv = .again after) :
    ∃ bytes, recv = .datagram bytes ∧ reHeaderBytes ≤ (bytes.take 65536).length ∧
      ((∃ next, plan state (Complete.arrivedHeader args.host bytes) = .reject next ∧
          next.rejectedPkt < 100 ∧ after = next) ∨
        ∃ ready, plan state (Complete.arrivedHeader args.host bytes) = .copy ready ∧
          after = ready.copied args (Complete.arrivedHeader args.host bytes)
            (Complete.arrivedPayload bytes)) := by
  cases recv with
  | failed => cases step
  | datagram bytes =>
      unfold round at step
      dsimp only at step
      split_ifs at step with short
      refine ⟨bytes, rfl, not_lt.mp short, ?_⟩
      unfold handle at step
      cases planned : plan state (Complete.arrivedHeader args.host bytes) with
      | outOfOrder => simp [planned] at step
      | reject next =>
          simp only [planned] at step
          split_ifs at step with many
          exact .inl ⟨next, rfl, not_le.mp many, (checkRoom_again step).1⟩
      | copy ready =>
          simp only [planned] at step
          split_ifs at step with complete
          exact .inr ⟨ready, rfl, (checkRoom_again step).1⟩

/-! ### The copies -/

/-- The range of the buffer that a round copies to, if it does. -/
def roundCopy (args : PacketizedArgs) (state : State) : Recv → Option (Nat × Nat)
  | .failed => none
  | .datagram bytes =>
      if (bytes.take 65536).length < reHeaderBytes then none
      else
        match plan state (Complete.arrivedHeader args.host bytes) with
        | .copy _ => some ((offsetLocal args (Complete.arrivedHeader args.host bytes)).toNat,
            (Complete.arrivedPayload bytes).length)
        | _ => none

/-- The copy of a round stays inside of the buffer, and what remains of it does
not wrap. -/
def CopiesInside (args : PacketizedArgs) (state : State) (recv : Recv) : Prop :=
  ∀ start count, roundCopy args state recv = some (start, count) →
    start + count ≤ args.bufLen.toNat ∧ count ≤ state.remainingLen.toNat

/-- The data that the call has accepted fits the buffer together with that of
the packet to be copied. -/
def Fits (args : PacketizedArgs) (state : State) (recv : Recv) : Prop :=
  ∀ start count, roundCopy args state recv = some (start, count) →
    state.totalBytesRead + count ≤ args.bufLen.toNat

/-- What a call has read, what remains and the next offset belong together. -/
structure Balanced (args : PacketizedArgs) (state : State) : Prop where
  nonneg : 0 ≤ state.totalBytesRead
  remaining : state.totalBytesRead + state.remainingLen.toNat = args.bufLen.toNat
  offset : state.nextOffset = args.offset + UInt32.ofNat state.totalBytesRead.toNat
  first : state.veryFirstRead = true → state.nextOffset = 0

theorem balanced_start (consistent : args.veryFirstRead = true → args.offset = 0) :
    Balanced args (start args) where
  nonneg := le_rfl
  remaining := by simp [start]
  offset := by simp [start]
  first := consistent

/-- A packet that is copied has the expected offset. -/
theorem Balanced.copy {state ready : State} {header : ReFields} (balanced : Balanced args state)
    (planned : plan state header = .copy ready) :
    header.offset = state.nextOffset ∧ ready.totalBytesRead = state.totalBytesRead ∧
      ready.remainingLen = state.remainingLen := by
  rcases plan_copy planned with ⟨first, zero, rfl⟩ | ⟨-, expected, -, -, rfl⟩
  · exact ⟨zero.trans (balanced.first first).symm, rfl, rfl⟩
  · exact ⟨expected, rfl, rfl⟩

theorem Balanced.copied {state ready : State} {header : ReFields} {payload : List UInt8}
    (balanced : Balanced args state) (planned : plan state header = .copy ready)
    (fits : payload.length ≤ state.remainingLen.toNat) :
    Balanced args (ready.copied args header payload) := by
  rcases balanced.copy planned with ⟨expected, total, remaining⟩
  have nonneg := balanced.nonneg
  have small : state.remainingLen.toNat < 2 ^ 64 := state.remainingLen.toNat_lt
  have whole : (UInt64.ofNat payload.length).toNat = payload.length :=
    UInt64.toNat_ofNat_of_lt' (by show payload.length < 2 ^ 64; omega)
  constructor
  · simp only [State.copied, total]
    omega
  · have before := balanced.remaining
    simp only [State.copied, total, remaining]
    rw [UInt64.toNat_sub_of_le _ _ (by rw [UInt64.le_iff_toNat_le, whole]; exact fits), whole]
    omega
  · have sum : (state.totalBytesRead + payload.length).toNat =
        state.totalBytesRead.toNat + payload.length := by omega
    simp only [State.copied, total, expected, balanced.offset, sum, UInt32.ofNat_add,
      UInt32.add_assoc]
  · intro first
    cases first

/-- A packet goes where the data read so far ends, modulo the width of the
offset. -/
theorem Balanced.offsetLocal_le {state ready : State} {header : ReFields}
    (balanced : Balanced args state) (planned : plan state header = .copy ready) :
    ((offsetLocal args header).toNat : Int) ≤ state.totalBytesRead := by
  have nonneg := balanced.nonneg
  rw [offsetLocal, (balanced.copy planned).1, balanced.offset, UInt32.add_comm,
    UInt32.add_sub_cancel, UInt32.toNat_ofNat']
  have le := Nat.mod_le state.totalBytesRead.toNat (2 ^ 32)
  omega

theorem roundCopy_some {state : State} {recv : Recv} {start count : Nat}
    (copies : roundCopy args state recv = some (start, count)) :
    ∃ bytes ready, recv = .datagram bytes ∧
      plan state (Complete.arrivedHeader args.host bytes) = .copy ready ∧
      start = (offsetLocal args (Complete.arrivedHeader args.host bytes)).toNat ∧
      count = (Complete.arrivedPayload bytes).length := by
  cases recv with
  | failed => cases copies
  | datagram bytes =>
      unfold roundCopy at copies
      dsimp only at copies
      split_ifs at copies
      cases planned : plan state (Complete.arrivedHeader args.host bytes) with
      | outOfOrder => simp [planned] at copies
      | reject next => simp [planned] at copies
      | copy ready =>
          simp only [planned, Option.some.injEq, Prod.mk.injEq] at copies
          exact ⟨bytes, ready, rfl, planned, copies.1.symm, copies.2.symm⟩

theorem copiesInside_iff {state : State} {recv : Recv} (balanced : Balanced args state) :
    CopiesInside args state recv ↔ Fits args state recv := by
  have remaining := balanced.remaining
  apply forall₃_congr
  intro start count copies
  rcases roundCopy_some copies with ⟨bytes, ready, -, planned, rfl, rfl⟩
  have before := balanced.offsetLocal_le planned
  constructor
  · intro both
    obtain ⟨-, fits⟩ := both
    omega
  · intro fits
    omega

theorem balanced_again {state after : State} {recv : Recv} (balanced : Balanced args state)
    (inside : CopiesInside args state recv) (step : round args state recv = .again after) :
    Balanced args after := by
  rcases round_again step with ⟨bytes, rfl, long, ⟨next, planned, -, rfl⟩ | ⟨ready, planned, rfl⟩⟩
  · rcases plan_reject planned with ⟨-, -, -, rfl⟩
    exact ⟨balanced.nonneg, balanced.remaining, balanced.offset, balanced.first⟩
  · apply balanced.copied planned
    refine (inside (offsetLocal args (Complete.arrivedHeader args.host bytes)).toNat _ ?_).2
    simp only [roundCopy, if_neg (not_lt.mpr long), planned]

/-- Every copy of a call stays inside of the buffer, and what remains never
wraps, exactly when the data of the packets it accepts fits the buffer: the
room for a jumbo frame does not matter. -/
theorem copiesInside_call_iff (args : PacketizedArgs)
    (consistent : args.veryFirstRead = true → args.offset = 0) (socket : List Recv) :
    AlongCall args (CopiesInside args) socket ↔ AlongCall args (Fits args) socket := by
  unfold AlongCall
  cases room : checkRoom args (start args) with
  | leave outcome => exact Iff.rfl
  | again state =>
      rw [(checkRoom_again room).1]
      exact along_congr_of_invariant (Balanced args) (fun _ _ balanced => copiesInside_iff balanced)
        (fun _ _ _ balanced inside step => balanced_again balanced inside step)
        (balanced_start consistent) socket

/-- A packet that fits the packet array is handled as its fields and payload. -/
theorem round_recv {packet : Packet} (state : State) (wellFormed : packet.WellFormed) :
    round args state packet.recv = handle args state (Complete.fields packet) packet.payload := by
  rcases Complete.arrived_bytes args.host wellFormed with ⟨header, payload⟩
  have long : reHeaderBytes ≤ packet.bytes.length := by
    rw [Complete.bytes_length]
    exact Nat.le_add_right _ _
  rw [Packet.recv, round, if_neg (Complete.long_take long), header, payload]

/-- The first call of a stage, with a buffer of the least size that is read
into. -/
def sampleCall : PacketizedArgs where
  host := .little
  dataBuf := fun _ => 0
  bufLen := 9978
  veryFirstRead := true
  last := false
  srcId := 0
  tick := 0
  offset := 0
  packetCount := 0
  packetTick := 0

/-- One byte more than a jumbo frame has room for. -/
def oversized : Packet where
  version := 2
  reserved := 0
  tick := 5
  dataId := 7
  offset := 0
  length := 9979
  payload := List.replicate 9979 0

theorem oversized_length : oversized.payload.length = 9979 :=
  List.length_replicate

theorem oversized_wellFormed : oversized.WellFormed where
  versionNonneg := by decide
  versionLt := by decide
  nonempty := List.length_pos_iff.mp (by rw [oversized_length]; decide)
  fits := by rw [oversized_length]; decide

theorem copiesInside_call_iff_sample :
    AlongCall sampleCall (CopiesInside sampleCall) [oversized.recv] ↔
      AlongCall sampleCall (Fits sampleCall) [oversized.recv] :=
  copiesInside_call_iff sampleCall (by decide) [oversized.recv]

/-- The packet is copied to 9979 bytes of a buffer of 9978. -/
theorem not_copiesInside_oversized :
    ¬ AlongCall sampleCall (CopiesInside sampleCall) [oversized.recv] := by
  intro inside
  have room : checkRoom sampleCall (start sampleCall) = .again (start sampleCall) :=
    checkRoom_of_not_lt (by decide)
  rw [AlongCall, room] at inside
  have here : CopiesInside sampleCall (start sampleCall) oversized.recv := inside.head
  have copies : roundCopy sampleCall (start sampleCall) oversized.recv = some (0, 9979) := by
    rcases Complete.arrived_bytes sampleCall.host oversized_wellFormed with ⟨header, payload⟩
    have long : reHeaderBytes ≤ oversized.bytes.length := by
      rw [Complete.bytes_length]
      exact Nat.le_add_right _ _
    simp only [roundCopy, Packet.recv, if_neg (Complete.long_take long), header, payload,
      oversized_length]
    rfl
  have fits := (here 0 9979 copies).1
  revert fits
  decide

end Packetized

end Dift.Assemble
