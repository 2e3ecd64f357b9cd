import Dift.Foundation.Loop
import Dift.Wire.Headers

/-!
Owns `getCompletePacketizedBuffer`: the receiving loop that reassembles one
buffer from version 2 packets. The socket is a list of `recvfrom` results; the
loop reads one of them a round and stops at the end of the list the way the
source blocks. Debug output is not modelled.
-/

namespace Dift.Assemble

open Dift.Foundation
open Dift.Wire

/-- What one `recvfrom` gives. -/
inductive Recv where
  | failed
  | datagram (bytes : List UInt8)
deriving DecidableEq, Repr

/-- The error codes the modelled functions return. -/
def recvMsg : Int := -1
def bufTooSmall : Int := -3
def internalError : Int := -10

/-- The counters of `packetRecvStats` that the receivers add to. -/
structure PacketRecvStats where
  droppedPackets : Int
  acceptedPackets : Int
  discardedPackets : Int
  badSrcIdPackets : Int
  acceptedBytes : Int
  discardedBytes : Int
  droppedBuffers : Int
  discardedBuffers : Int
  builtBuffers : Int
deriving DecidableEq, Repr

/-- The arguments of a call. `wantsDataId` says that the `dataId` pointer is
not null, `stats` is `none` for a null pointer, and `dataBuf` is the memory
behind the buffer before the call. -/
structure CompleteArgs where
  host : ByteOrder
  dataBuf : Mem
  bufLen : Nat
  tick : UInt64
  wantsDataId : Bool
  stats : Option PacketRecvStats
  tickPrescale : UInt32

/-- What a call leaves behind: the returned value, `*tick`, `*dataId` when it
was written, the buffer's memory and the statistics. -/
structure Outcome where
  ret : Int
  tick : UInt64
  dataId : Option UInt16
  dataBuf : Mem
  stats : Option PacketRecvStats

/-- How a call ends. An integer division by zero stops the program. -/
inductive Exit where
  | returned (outcome : Outcome)
  | divideByZero

namespace Complete

/-- The variables that live across rounds. -/
structure State where
  dataBuf : Mem
  prevTick : UInt64
  length : UInt32
  totalPkts : UInt32
  pktCount : UInt32
  dumpTick : Bool
  veryFirstRead : Bool
  srcId : UInt16
  totalBytesRead : Int
  discardedPackets : Int
  discardedBytes : Int
  discardedBufs : Int
  stats : Option PacketRecvStats

/-- `UINT_MAX`, the initial value of the 64-bit `prevTick`. -/
def uintMax : UInt64 := 0xFFFFFFFF

def start (args : CompleteArgs) : State where
  dataBuf := args.dataBuf
  prevTick := uintMax
  length := 0
  totalPkts := 0
  pktCount := 0
  dumpTick := false
  veryFirstRead := true
  srcId := 0
  totalBytesRead := 0
  discardedPackets := 0
  discardedBytes := 0
  discardedBufs := 0
  stats := args.stats

/-- Return an error: nothing but the buffer and the statistics written so far
is changed. -/
def State.error (args : CompleteArgs) (state : State) (code : Int) : Exit :=
  .returned {
    ret := code
    tick := args.tick
    dataId := none
    dataBuf := state.dataBuf
    stats := state.stats }

/-- `packetTick - expectedTick` as `int64_t`, without its sign. -/
def tickDistance (packetTick expectedTick : UInt64) : Int :=
  let diff := ((packetTick - expectedTick).toNat : Int).bmod (2 ^ 64)
  if diff < 0 then -diff else diff

/-- The statistics of a finished buffer. `none` is the division by a prescale
of zero. -/
def finishStats (args : CompleteArgs) (state : State) (packetTick : UInt64)
    (stats : PacketRecvStats) : Option PacketRecvStats :=
  let added (stats : PacketRecvStats) : PacketRecvStats :=
    { stats with
      acceptedBytes := stats.acceptedBytes + state.totalBytesRead
      acceptedPackets := stats.acceptedPackets + state.pktCount.toNat
      discardedBytes := stats.discardedBytes + state.discardedBytes
      discardedPackets := stats.discardedPackets + state.discardedPackets
      discardedBuffers := stats.discardedBuffers + state.discardedBufs }
  if args.tick ≠ 0xFFFFFFFFFFFFFFFF then
    if args.tickPrescale = 0 then none
    else
      let droppedTicks := (tickDistance packetTick args.tick).tdiv args.tickPrescale.toNat
      some (added { stats with
        droppedBuffers := stats.droppedBuffers + droppedTicks
        droppedPackets := stats.droppedPackets + droppedTicks * state.pktCount.toNat })
  else some (added stats)

/-- All data is there: set the value-result arguments and return. -/
def finish (args : CompleteArgs) (state : State) (header : ReFields) : Exit :=
  let returned (stats : Option PacketRecvStats) : Exit := .returned {
    ret := state.totalBytesRead
    tick := header.tick
    dataId := if args.wantsDataId then some header.dataId else none
    dataBuf := state.dataBuf
    stats := stats }
  match state.stats with
  | none => returned none
  | some stats =>
      match finishStats args state header.tick stats with
      | none => .divideByZero
      | some stats => returned (some stats)

/-- From the room check to the end of the round. -/
def copyData (args : CompleteArgs) (state : State) (header : ReFields) (payload : List UInt8) :
    Round State Exit :=
  if header.offset.toNat + payload.length > args.bufLen then
    .leave (state.error args bufTooSmall)
  else
    let state := { state with
      dataBuf := state.dataBuf.write header.offset.toNat payload
      totalBytesRead := state.totalBytesRead + payload.length
      veryFirstRead := false
      prevTick := header.tick
      pktCount := state.pktCount + 1 }
    if state.totalBytesRead ≥ (header.length.toNat : Int) then .leave (finish args state header)
    else .again state

/-- The tests on the tick, for a packet whose source is accepted. The previous
length and packet guess are those of the packet before. -/
def sortTick (args : CompleteArgs) (state : State) (prevLength prevTotalPkts : UInt32)
    (header : ReFields) (payload : List UInt8) : Round State Exit :=
  if header.tick ≠ state.prevTick then
    if header.offset ≠ 0 then
      -- The first packet of the new tick is missing: dump the whole tick.
      .again { state with
        veryFirstRead := true
        dumpTick := true
        prevTick := header.tick
        discardedPackets := state.discardedPackets + state.totalPkts.toNat
        discardedBytes := state.discardedBytes + header.length.toNat
        discardedBufs := state.discardedBufs + 1 }
    else if state.veryFirstRead then
      copyData args { state with dumpTick := false } header payload
    else
      -- The last tick's buffer was not complete: discard it.
      copyData args { state with
        dumpTick := false
        pktCount := 0
        totalBytesRead := 0
        srcId := header.dataId
        discardedPackets := state.discardedPackets + prevTotalPkts.toNat
        discardedBytes := state.discardedBytes + prevLength.toNat
        discardedBufs := state.discardedBufs + 1 } header payload
  else if state.dumpTick then
    .again { state with veryFirstRead := true }
  else copyData args state header payload

/-- A packet that holds a header: guess the number of packets on the first
read, reject foreign sources after it, then look at the tick. -/
def handle (args : CompleteArgs) (state : State) (header : ReFields) (payload : List UInt8) :
    Round State Exit :=
  let parsed := { state with length := header.length }
  if state.veryFirstRead then
    if payload.length = 0 then .leave .divideByZero
    else
      sortTick args { parsed with
        totalBytesRead := 0
        pktCount := 0
        srcId := header.dataId
        totalPkts := UInt32.ofNat
          ((header.length.toNat + (payload.length - 1)) / payload.length) }
        state.length state.totalPkts header payload
  else if header.dataId ≠ state.srcId then
    .again { parsed with
      stats := state.stats.map fun stats =>
        { stats with badSrcIdPackets := stats.badSrcIdPackets + 1 } }
  else sortTick args parsed state.length state.totalPkts header payload

/-- The packet array after a datagram was received into it. -/
def received (bytes : List UInt8) : Mem :=
  Memory.write (fun _ => 0) 0 (bytes.take 65536)

/-- One round of the loop. -/
def round (args : CompleteArgs) (state : State) : Recv → Round State Exit
  | .failed => .leave (state.error args recvMsg)
  | .datagram bytes =>
      let bytesRead := (bytes.take 65536).length
      if bytesRead < reHeaderBytes then .leave (state.error args internalError)
      else
        handle args state (parseReHeader args.host (received bytes) 0)
          ((received bytes).read reHeaderBytes (bytesRead - reHeaderBytes))

/-- The variables after a copy. -/
def State.afterCopy (state : State) (header : ReFields) (payload : List UInt8) : State :=
  { state with
    dataBuf := state.dataBuf.write header.offset.toNat payload
    totalBytesRead := state.totalBytesRead + payload.length
    veryFirstRead := false
    prevTick := header.tick
    pktCount := state.pktCount + 1 }

theorem copyData_eq {args : CompleteArgs} {header : ReFields} {payload : List UInt8}
    (state : State) (room : header.offset.toNat + payload.length ≤ args.bufLen) :
    copyData args state header payload =
      if (state.afterCopy header payload).totalBytesRead ≥ (header.length.toNat : Int) then
        .leave (finish args (state.afterCopy header payload) header)
      else .again (state.afterCopy header payload) :=
  if_neg (not_lt.mpr room)

/-! ### What a packet leads to -/

/-- What a round has decided before the room check: the division is by zero, the
packet is passed over, or it is copied in a state that is ready for it. -/
inductive Plan where
  | divide
  | pass (next : State)
  | copy (ready : State)

/-- The decision on the tick. -/
def planTick (state : State) (prevLength prevTotalPkts : UInt32) (header : ReFields) : Plan :=
  if header.tick ≠ state.prevTick then
    if header.offset ≠ 0 then
      .pass { state with
        veryFirstRead := true
        dumpTick := true
        prevTick := header.tick
        discardedPackets := state.discardedPackets + state.totalPkts.toNat
        discardedBytes := state.discardedBytes + header.length.toNat
        discardedBufs := state.discardedBufs + 1 }
    else if state.veryFirstRead then .copy { state with dumpTick := false }
    else
      .copy { state with
        dumpTick := false
        pktCount := 0
        totalBytesRead := 0
        srcId := header.dataId
        discardedPackets := state.discardedPackets + prevTotalPkts.toNat
        discardedBytes := state.discardedBytes + prevLength.toNat
        discardedBufs := state.discardedBufs + 1 }
  else if state.dumpTick then .pass { state with veryFirstRead := true }
  else .copy state

/-- The variables after the header is parsed. -/
def State.parsed (state : State) (header : ReFields) : State :=
  { state with length := header.length }

/-- The variables after a first read. -/
def State.firstRead (state : State) (header : ReFields) (payload : List UInt8) : State :=
  { state.parsed header with
    totalBytesRead := 0
    pktCount := 0
    srcId := header.dataId
    totalPkts := UInt32.ofNat ((header.length.toNat + (payload.length - 1)) / payload.length) }

/-- The decision on a packet. It does not depend on the buffer. -/
def plan (state : State) (header : ReFields) (payload : List UInt8) : Plan :=
  if state.veryFirstRead then
    if payload.length = 0 then .divide
    else planTick (state.firstRead header payload) state.length state.totalPkts header
  else if header.dataId ≠ state.srcId then
    .pass { state.parsed header with
      stats := state.stats.map fun stats =>
        { stats with badSrcIdPackets := stats.badSrcIdPackets + 1 } }
  else planTick (state.parsed header) state.length state.totalPkts header

/-! Each decision by its conditions, with the state it leads to. -/

section Decisions

variable (state : State) {prevLength prevTotalPkts : UInt32} {header : ReFields}
  {payload : List UInt8}

theorem plan_first (header : ReFields) (first : state.veryFirstRead = true)
    (hasData : payload ≠ []) :
    plan state header payload =
      planTick (state.firstRead header payload) state.length state.totalPkts header := by
  have size : ¬ payload.length = 0 := fun isNil => hasData (List.length_eq_zero_iff.mp isNil)
  rw [plan, if_pos first, if_neg size]

theorem plan_known (header : ReFields) (payload : List UInt8)
    (notFirst : state.veryFirstRead = false) (known : header.dataId = state.srcId) :
    plan state header payload =
      planTick (state.parsed header) state.length state.totalPkts header := by
  rw [plan, if_neg (by simp [notFirst]), if_neg (not_not.mpr known)]

theorem planTick_missing (new : header.tick ≠ state.prevTick) (missing : header.offset ≠ 0) :
    planTick state prevLength prevTotalPkts header =
      .pass { state with
        veryFirstRead := true
        dumpTick := true
        prevTick := header.tick
        discardedPackets := state.discardedPackets + state.totalPkts.toNat
        discardedBytes := state.discardedBytes + header.length.toNat
        discardedBufs := state.discardedBufs + 1 } := by
  rw [planTick, if_pos new, if_pos missing]

theorem planTick_begin (new : header.tick ≠ state.prevTick) (begins : header.offset = 0)
    (first : state.veryFirstRead = true) :
    planTick state prevLength prevTotalPkts header = .copy { state with dumpTick := false } := by
  rw [planTick, if_pos new, if_neg (not_not.mpr begins), if_pos first]

theorem planTick_replace (new : header.tick ≠ state.prevTick) (begins : header.offset = 0)
    (notFirst : state.veryFirstRead = false) :
    planTick state prevLength prevTotalPkts header =
      .copy { state with
        dumpTick := false
        pktCount := 0
        totalBytesRead := 0
        srcId := header.dataId
        discardedPackets := state.discardedPackets + prevTotalPkts.toNat
        discardedBytes := state.discardedBytes + prevLength.toNat
        discardedBufs := state.discardedBufs + 1 } := by
  rw [planTick, if_pos new, if_neg (not_not.mpr begins), if_neg (by simp [notFirst])]

theorem planTick_dumped (same : header.tick = state.prevTick) (dumps : state.dumpTick = true) :
    planTick state prevLength prevTotalPkts header =
      .pass { state with veryFirstRead := true } := by
  rw [planTick, if_neg (not_not.mpr same), if_pos dumps]

theorem planTick_same (same : header.tick = state.prevTick) (kept : state.dumpTick = false) :
    planTick state prevLength prevTotalPkts header = .copy state := by
  rw [planTick, if_neg (not_not.mpr same), if_neg (by simp [kept])]

end Decisions

/-- Carry out a decision. -/
def Plan.carryOut (args : CompleteArgs) (header : ReFields) (payload : List UInt8) :
    Plan → Round State Exit
  | .divide => .leave .divideByZero
  | .pass next => .again next
  | .copy ready => copyData args ready header payload

theorem sortTick_eq (args : CompleteArgs) (state : State) (prevLength prevTotalPkts : UInt32)
    (header : ReFields) (payload : List UInt8) :
    sortTick args state prevLength prevTotalPkts header payload =
      (planTick state prevLength prevTotalPkts header).carryOut args header payload := by
  unfold sortTick planTick
  split_ifs <;> rfl

theorem handle_eq (args : CompleteArgs) (state : State) (header : ReFields)
    (payload : List UInt8) :
    handle args state header payload =
      (plan state header payload).carryOut args header payload := by
  unfold handle plan
  split_ifs
  · rfl
  · exact sortTick_eq _ _ _ _ _ _
  · rfl
  · exact sortTick_eq _ _ _ _ _ _

/-- A packet of an accepted source is copied: it begins a tick, or it belongs to
one that is not dumped. -/
def InTurn (state : State) (header : ReFields) : Prop :=
  if header.tick ≠ state.prevTick then header.offset = 0 else state.dumpTick = false

instance (state : State) (header : ReFields) : Decidable (InTurn state header) := by
  unfold InTurn
  infer_instance

/-- The source of a packet is accepted, and the packet is copied. -/
def Copied (state : State) (header : ReFields) : Prop :=
  (state.veryFirstRead = true ∨ header.dataId = state.srcId) ∧ InTurn state header

instance (state : State) (header : ReFields) : Decidable (Copied state header) := by
  unfold Copied
  infer_instance

theorem planTick_copy_iff (state : State) (prevLength prevTotalPkts : UInt32)
    (header : ReFields) :
    (∃ ready, planTick state prevLength prevTotalPkts header = .copy ready) ↔
      InTurn state header := by
  unfold planTick InTurn
  split_ifs <;> simp_all

theorem planTick_ne_divide (state : State) (prevLength prevTotalPkts : UInt32)
    (header : ReFields) : planTick state prevLength prevTotalPkts header ≠ .divide := by
  unfold planTick
  split_ifs <;> exact nofun

theorem plan_divide_iff (state : State) (header : ReFields) (payload : List UInt8) :
    plan state header payload = .divide ↔ state.veryFirstRead = true ∧ payload = [] := by
  unfold plan
  split_ifs with first empty foreign
  · simp [first, List.length_eq_zero_iff.mp empty]
  · have hasData : payload ≠ [] := fun isNil => empty (List.length_eq_zero_iff.mpr isNil)
    simp [hasData, planTick_ne_divide]
  · simp [first]
  · simp [first, planTick_ne_divide]

theorem plan_copy_iff (state : State) (header : ReFields) {payload : List UInt8}
    (hasData : payload ≠ []) :
    (∃ ready, plan state header payload = .copy ready) ↔ Copied state header := by
  unfold plan Copied
  split_ifs with first empty foreign
  · exact absurd (List.length_eq_zero_iff.mp empty) hasData
  · rw [planTick_copy_iff]
    exact (and_iff_right (.inl first)).symm
  · simp [first, foreign]
  · rw [planTick_copy_iff]
    exact (and_iff_right (.inr (not_not.mp foreign))).symm

/-- The state a decision leads to, if any. -/
def Plan.state? : Plan → Option State
  | .divide => none
  | .pass next => some next
  | .copy ready => some ready

/-- A decision does not touch the buffer. -/
theorem plan_dataBuf {state next : State} {header : ReFields} {payload : List UInt8}
    (leads : (plan state header payload).state? = some next) : next.dataBuf = state.dataBuf := by
  unfold plan planTick at leads
  split_ifs at leads <;> cases leads <;> rfl

theorem plan_totalBytesRead {state next : State} {header : ReFields} {payload : List UInt8}
    (leads : (plan state header payload).state? = some next)
    (nonneg : 0 ≤ state.totalBytesRead) : 0 ≤ next.totalBytesRead := by
  unfold plan planTick at leads
  split_ifs at leads <;> cases leads <;> first | exact nonneg | exact Int.le_refl 0

/-! ### Datagrams that hold a header -/

/-- The header of a datagram as the receivers parse it. -/
def arrivedHeader (host : ByteOrder) (bytes : List UInt8) : ReFields :=
  parseReHeader host (received bytes) 0

/-- What stands behind the header. -/
def arrivedPayload (bytes : List UInt8) : List UInt8 :=
  (received bytes).read reHeaderBytes ((bytes.take 65536).length - reHeaderBytes)

theorem arrivedPayload_length (bytes : List UInt8) :
    (arrivedPayload bytes).length = min 65536 bytes.length - reHeaderBytes := by
  rw [arrivedPayload, Memory.read_length, List.length_take]

theorem arrivedPayload_bounds {bytes : List UInt8} (hasData : reHeaderBytes < bytes.length) :
    arrivedPayload bytes ≠ [] ∧ (arrivedPayload bytes).length < 2 ^ 32 := by
  have size := arrivedPayload_length bytes
  unfold reHeaderBytes at hasData size
  constructor
  · intro empty
    rw [empty, List.length_nil] at size
    omega
  · omega

theorem long_take {bytes : List UInt8} (long : reHeaderBytes ≤ bytes.length) :
    ¬ (bytes.take 65536).length < reHeaderBytes := by
  rw [List.length_take, not_lt]
  exact le_min (by decide) long

theorem round_datagram (args : CompleteArgs) (state : State) {bytes : List UInt8}
    (long : reHeaderBytes ≤ bytes.length) :
    round args state (.datagram bytes) =
      handle args state (arrivedHeader args.host bytes) (arrivedPayload bytes) :=
  if_neg (long_take long)

theorem round_short (args : CompleteArgs) (state : State) {bytes : List UInt8}
    (short : bytes.length < reHeaderBytes) :
    round args state (.datagram bytes) = .leave (state.error args internalError) :=
  if_pos (lt_of_le_of_lt (List.take_sublist _ _).length_le short)

end Complete

/-- A datagram holds a whole header. -/
def Recv.HoldsHeader : Recv → Prop
  | .failed => True
  | .datagram bytes => reHeaderBytes ≤ bytes.length

/-- A datagram holds at least one byte behind its header. -/
def Recv.HasData : Recv → Prop
  | .failed => True
  | .datagram bytes => reHeaderBytes < bytes.length

instance (recv : Recv) : Decidable recv.HoldsHeader := by
  cases recv <;> unfold Recv.HoldsHeader <;> infer_instance

instance (recv : Recv) : Decidable recv.HasData := by
  cases recv <;> unfold Recv.HasData <;> infer_instance

/-- A call reading from the given `recvfrom` results. -/
def getCompletePacketizedBuffer (args : CompleteArgs) (socket : List Recv) :
    Fed Complete.State Exit Recv :=
  feed (Complete.round args) (Complete.start args) socket

end Dift.Assemble
