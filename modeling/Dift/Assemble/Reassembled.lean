import Dift.Assemble.Allocated
import Dift.Packetize.Partition

/-!
Owns `getReassembledBuffer`, which reassembles what `sendPacketizedBuf` sends
into the storage of a vector. The capacity is compared with the length of the
data on a first read only, and two blocks are copied for each packet: its data,
and its number into a record of arrivals at the beginning of the buffer. The
copies are shown to stay inside exactly when no tick longer than the capacity is
begun elsewhere, and no tick is shorter than its record.
-/

namespace Dift.Assemble

open Dift.Foundation
open Dift.Wire
open Dift.Packetize.Grpc

/-- The arguments of a call. `dataBuf` and `bufLen` are the storage and the
capacity of the vector, `size` is its size. `reserved` is the capacity after a
reallocation, which is at least what is asked for, and `fresh` is what the new
storage holds; `pkt` is what the packet array holds before. -/
structure ReassembledArgs extends CompleteArgs where
  size : Nat
  reserved : Nat → Nat
  enough : ∀ length, length ≤ reserved length
  fresh : Mem
  pkt : Mem

/-- What a call leaves behind: besides what the other receivers do, the capacity
of the vector. -/
structure ReassembledOutcome extends Outcome where
  capacity : Nat

/-- How a call ends. -/
inductive ReassembledExit where
  | returned (outcome : ReassembledOutcome)
  | divideByZero

namespace Reassembled

/-- The variables that live across rounds. `bufLen` is what the call takes for
the capacity. -/
structure State extends Complete.State where
  capacity : Nat
  bufLen : Nat
  pkt : Mem

def start (args : ReassembledArgs) : State where
  toState := Complete.start args.toCompleteArgs
  capacity := args.bufLen
  bufLen := args.bufLen
  pkt := args.pkt

/-- Return with the vector as it is. -/
def State.exit (state : State) : Exit → ReassembledExit
  | .returned outcome => .returned { toOutcome := outcome, capacity := state.capacity }
  | .divideByZero => .divideByZero

/-- Return an error. -/
def State.error (args : ReassembledArgs) (state : State) (code : Int) : ReassembledExit :=
  state.exit (state.toState.error args.toCompleteArgs code)

/-- `vec.reserve(length)`: storage that is too small is replaced, and the
elements of the vector, not what stands behind them, are moved. -/
def State.reserve (args : ReassembledArgs) (state : State) (length : Nat) : State :=
  if length ≤ state.capacity then state
  else { state with
    capacity := args.reserved length
    dataBuf := args.fresh.write 0 (state.dataBuf.read 0 args.size) }

/-- On a first read, a length above the known capacity grows the vector. -/
def State.expand (args : ReassembledArgs) (state : State) (length : UInt32) : State :=
  if state.veryFirstRead = true ∧ length.toNat > state.bufLen then
    { state.reserve args length.toNat with bufLen := length.toNat }
  else state

/-- The place of the next entry of the record of arrivals. -/
def State.recordPlace (state : State) : Nat :=
  12 + (4 * state.pktCount).toNat

/-- The variables after both copies. -/
def State.copied (host : ByteOrder) (state : State) (header : ReFields) (sequence : UInt32)
    (payload : List UInt8) : State :=
  { state with
    dataBuf := store32 host (state.dataBuf.write header.offset.toNat payload) state.recordPlace
      sequence
    totalBytesRead := state.totalBytesRead + payload.length
    veryFirstRead := false
    prevTick := header.tick
    pktCount := state.pktCount + 1 }

/-- From the check of the capacity to the end of the round. -/
def copyData (args : ReassembledArgs) (state : State) (header : ReFields) (sequence : UInt32)
    (payload : List UInt8) : Round State ReassembledExit :=
  let copied := (state.expand args header.length).copied args.host header sequence payload
  if copied.pktCount ≥ copied.totalPkts then
    .leave (copied.exit (Complete.finish args.toCompleteArgs copied.toState header))
  else .again copied

/-- What a packet leads to. -/
inductive Plan where
  | pass (next : State)
  | copy (ready : State)

/-- The variables after the description of a packet is parsed. The counts are
set to zero before a first read. -/
def State.parsed (state : State) (header : ReFields) (data : PacketData) : State :=
  if state.veryFirstRead then
    { state with
      totalBytesRead := 0
      pktCount := 0
      srcId := header.dataId
      length := header.length
      totalPkts := data.totalPkts }
  else { state with length := header.length, totalPkts := data.totalPkts }

/-- The tests on the tick. -/
def planTick (state : State) (prevLength prevTotalPkts : UInt32) (header : ReFields) : Plan :=
  if header.tick ≠ state.prevTick then
    if header.offset ≠ 0 then
      .pass { state with
        veryFirstRead := true
        dumpTick := true
        prevTick := header.tick
        discardedPackets := state.discardedPackets + state.totalPkts.toNat
        discardedBytes := state.discardedBytes + header.length.toNat
        discardedBufs := state.discardedBufs + 1 }
    else if state.veryFirstRead then .copy { state with dumpTick := false }
    else
      -- The last tick's buffer was not complete: discard it.
      .copy { state with
        dumpTick := false
        pktCount := 0
        totalBytesRead := 0
        srcId := header.dataId
        discardedPackets := state.discardedPackets + prevTotalPkts.toNat
        discardedBytes := state.discardedBytes + prevLength.toNat
        discardedBufs := state.discardedBufs + 1 }
  else if state.dumpTick then .pass { state with veryFirstRead := true }
  else .copy state

/-- A packet that holds a header: after a first read foreign sources are
rejected, with nothing but the length parsed. -/
def plan (state : State) (header : ReFields) (data : PacketData) : Plan :=
  if state.veryFirstRead = false ∧ header.dataId ≠ state.srcId then
    .pass { state with length := header.length }
  else planTick (state.parsed header data) state.length state.totalPkts header

def handle (args : ReassembledArgs) (state : State) (header : ReFields) (data : PacketData)
    (payload : List UInt8) : Round State ReassembledExit :=
  match plan state header data with
  | .pass next => .again next
  | .copy ready => copyData args ready header data.pktSequence payload

/-- The packet array is 9100 bytes long; what a datagram does not reach stays
from those before. -/
def State.received (state : State) (bytes : List UInt8) : State :=
  { state with pkt := state.pkt.write 0 (bytes.take 9100) }

/-- The header of the packet that the array holds. -/
def State.header (args : ReassembledArgs) (state : State) : ReFields :=
  parseReHeader args.host state.pkt 0

/-- The description in the packet that the array holds. -/
def State.description (args : ReassembledArgs) (state : State) : PacketData :=
  parsePacketData args.host state.pkt reHeaderBytes

/-- The data of the packet that the array holds. -/
def State.payload (state : State) (bytes : List UInt8) : List UInt8 :=
  state.pkt.read reHeaderBytes ((bytes.take 9100).length - reHeaderBytes)

/-- One round of the loop. -/
def round (args : ReassembledArgs) (state : State) : Recv → Round State ReassembledExit
  | .failed => .leave (state.error args recvMsg)
  | .datagram bytes =>
      let state := state.received bytes
      if (bytes.take 9100).length < reHeaderBytes then .leave (state.error args internalError)
      else handle args state (state.header args) (state.description args) (state.payload bytes)

end Reassembled

/-- A call reading from the given `recvfrom` results. -/
def getReassembledBuffer (args : ReassembledArgs) (socket : List Recv) :
    Fed Reassembled.State ReassembledExit Recv :=
  feed (Reassembled.round args) (Reassembled.start args) socket

namespace Reassembled

/-! ### What a round leads to -/

theorem plan_copy {state ready : State} {header : ReFields} {data : PacketData}
    (planned : plan state header data = .copy ready) :
    ready.capacity = state.capacity ∧ ready.bufLen = state.bufLen ∧
      ready.veryFirstRead = state.veryFirstRead ∧ ready.totalPkts = data.totalPkts ∧
      (ready.pktCount = 0 ∨
        state.veryFirstRead = false ∧ header.tick = state.prevTick ∧
          ready.pktCount = state.pktCount) := by
  unfold plan planTick State.parsed at planned
  cases first : state.veryFirstRead
  · simp only [first, Bool.false_eq_true, if_false, true_and] at planned
    split_ifs at planned with foreign new missing dumps
    · cases planned
      exact ⟨rfl, rfl, rfl, rfl, .inl rfl⟩
    · cases planned
      exact ⟨rfl, rfl, rfl, rfl, .inr ⟨rfl, not_not.mp new, rfl⟩⟩
  · simp only [first, if_true, reduceCtorEq, false_and, if_false] at planned
    split_ifs at planned with new missing dumps
    · cases planned
      exact ⟨rfl, rfl, rfl, rfl, .inl rfl⟩
    · cases planned
      exact ⟨rfl, rfl, rfl, rfl, .inl rfl⟩

theorem plan_pass {state next : State} {header : ReFields} {data : PacketData}
    (planned : plan state header data = .pass next) :
    next.capacity = state.capacity ∧ next.bufLen = state.bufLen ∧
      (next.veryFirstRead = false →
        state.veryFirstRead = false ∧ next.prevTick = state.prevTick ∧
          next.pktCount = state.pktCount) := by
  unfold plan planTick State.parsed at planned
  split_ifs at planned <;> cases planned <;> simp_all

/-! ### What arrives -/

/-- A packet of some call of `sendPacketizedBuf`. -/
structure Sent where
  args : SendBufArgs
  index : Nat
  datagram : List UInt8
  long : 12 ≤ args.dataLen
  range : 12 ≤ args.maxUdpPayload ∧ args.maxUdpPayload ≤ 9064
  produced : ∃ outcome, sendPacketizedBuf .accepting args = some outcome ∧
    outcome.calls[index]? = some datagram

namespace Sent

/-- What the receiver gets of a packet: the load balancer has dropped its
header. -/
def bytes (sent : Sent) : List UInt8 := sent.datagram.drop lbHeaderBytes

def recv (sent : Sent) : Recv := .datagram sent.bytes

/-- Packets of one call for each tick, none of them twice. -/
structure Traffic (packets : List Sent) : Prop where
  perTick : ∀ first ∈ packets, ∀ second ∈ packets, first.args.tick = second.args.tick →
    first.args = second.args
  nodup : (packets.map fun sent => (sent.args.tick, sent.index)).Nodup

/-- A packet of a call by its place. -/
def ofCall (args : SendBufArgs) (index : Nat) (long : 12 ≤ args.dataLen)
    (range : 12 ≤ args.maxUdpPayload ∧ args.maxUdpPayload ≤ 9064)
    (below : index < args.totalPackets.toNat) : Sent where
  args := args
  index := index
  datagram := packet args index
  long := long
  range := range
  produced := by
    have inRange : 1 ≤ args.maxUdpPayload ∧ args.maxUdpPayload ≤ 9964 := by omega
    rcases sendPacketizedBuf_accepting inRange with ⟨outcome, returns, -, -, calls⟩
    exact ⟨outcome, returns, by rw [calls, packets_getElem?]; exact ⟨below, rfl⟩⟩

variable (sent : Sent)

theorem inRange : 1 ≤ sent.args.maxUdpPayload ∧ sent.args.maxUdpPayload ≤ 9964 := by
  have range := sent.range
  omega

theorem isPacket : sent.index < sent.args.totalPackets.toNat ∧
    packet sent.args sent.index = sent.datagram := by
  rcases sent.produced with ⟨outcome, returns, isCall⟩
  rcases sendPacketizedBuf_accepting sent.inRange with ⟨other, same, -, -, calls⟩
  cases returns.symm.trans same
  rwa [calls, packets_getElem?] at isCall

theorem bytes_eq :
    sent.bytes = rePart sent.args (cut sent.args sent.index).1 ++
      payload sent.args sent.index := by
  rw [bytes, ← sent.isPacket.2, packet, List.append_assoc]
  exact List.drop_left' (lbPart_length _)

/-- The sizes of a packet: it belongs inside of the data, and fits the packet
array. -/
theorem sizes : 12 ≤ size sent.args ∧ size sent.args ≤ 9064 ∧
    sent.args.dataLen.toNat + size sent.args ≤ 2 ^ 32 ∧
    sent.args.totalPackets.toNat = sent.args.dataLen.toNat ⌈/⌉ size sent.args ∧
    sent.index * size sent.args < sent.args.dataLen.toNat := by
  have range := sent.range
  have total := totalPackets_toNat sent.inRange
  have below := sent.isPacket.1
  have whole : 12 ≤ size sent.args ∧ size sent.args ≤ 9064 := by
    unfold size
    omega
  split_ifs at total with fits
  · rw [total] at below
    have before := (lt_iff_lt_of_le_iff_le (ceilDiv_le_iff_le_mul (size_range sent.inRange).1)).mp
      below
    exact ⟨whole.1, whole.2, fits, total, by rwa [Nat.mul_comm]⟩
  · omega

theorem offset_toNat : (cut sent.args sent.index).1.toNat = sent.index * size sent.args := by
  rw [(cut_toNat sent.inRange sent.index).1]
  exact min_eq_left sent.sizes.2.2.2.2.le

theorem payload_length :
    (payload sent.args sent.index).length =
      min (size sent.args) (sent.args.dataLen.toNat - sent.index * size sent.args) :=
  Packetize.Grpc.payload_length sent.inRange sent.index

theorem bytes_length :
    sent.bytes.length = reHeaderBytes + (payload sent.args sent.index).length := by
  rw [bytes_eq, List.length_append, rePart_length]

theorem bytes_take : sent.bytes.take 9100 = sent.bytes := by
  have sizes := sent.sizes
  have length := sent.payload_length
  rw [List.take_of_length_le]
  rw [bytes_length]
  unfold reHeaderBytes
  omega

end Sent

variable {args : ReassembledArgs} (state : State) (sent : Sent)

theorem header_received (args : ReassembledArgs) :
    Carries sent.args (cut sent.args sent.index).1 ((state.received sent.bytes).header args) := by
  apply carries_rePart
  have written := Memory.read_write_self state.pkt 0 sent.bytes
  have first := (Memory.read_split (written.trans sent.bytes_eq)).1
  rwa [rePart_length, ← sent.bytes_take] at first

theorem payload_received :
    (state.received sent.bytes).payload sent.bytes = payload sent.args sent.index := by
  have written := Memory.read_write_self state.pkt 0 sent.bytes
  have second := (Memory.read_split (written.trans sent.bytes_eq)).2
  rw [rePart_length, Nat.zero_add] at second
  rw [State.payload, sent.bytes_take, sent.bytes_length, Nat.add_sub_cancel_left, State.received,
    sent.bytes_take]
  exact second

theorem description_received (args : ReassembledArgs)
    (long : 12 ≤ (payload sent.args sent.index).length) :
    (state.received sent.bytes).description args =
      ⟨sent.args.backendTime, sent.args.totalPackets, UInt32.ofNat (sent.index + 1)⟩ := by
  apply parsePacketData_payload long
  have held := payload_received state sent
  rwa [State.payload, sent.bytes_take, sent.bytes_length, Nat.add_sub_cancel_left] at held

theorem round_sent :
    round args state sent.recv =
      handle args (state.received sent.bytes) ((state.received sent.bytes).header args)
        ((state.received sent.bytes).description args) (payload sent.args sent.index) := by
  have long : ¬ (sent.bytes.take 9100).length < reHeaderBytes := by
    rw [sent.bytes_take, sent.bytes_length]
    omega
  rw [← payload_received state sent]
  exact if_neg long

/-! ### The copies -/

/-- What a round copies: the state before the check of the capacity, and the
packet. -/
structure Copy where
  ready : State
  header : ReFields
  payload : List UInt8

/-- What a round copies, if it does. -/
def roundCopy (args : ReassembledArgs) (state : State) : Recv → Option Copy
  | .failed => none
  | .datagram bytes =>
      let state := state.received bytes
      if (bytes.take 9100).length < reHeaderBytes then none
      else
        match plan state (state.header args) (state.description args) with
        | .pass _ => none
        | .copy ready => some ⟨ready, state.header args, state.payload bytes⟩

namespace Copy

/-- The capacity of the vector at the moment of the copies. -/
def capacity (copy : Copy) (args : ReassembledArgs) : Nat :=
  (copy.ready.expand args copy.header.length).capacity

def dataEnd (copy : Copy) : Nat :=
  copy.header.offset.toNat + copy.payload.length

def recordEnd (copy : Copy) : Nat :=
  copy.ready.recordPlace + 4

end Copy

/-- Both copies of a round are inside of the vector's storage. -/
def CopiesInside (args : ReassembledArgs) (state : State) (recv : Recv) : Prop :=
  ∀ copy, roundCopy args state recv = some copy →
    copy.dataEnd ≤ copy.capacity args ∧ copy.recordEnd ≤ copy.capacity args

/-- A packet of a tick that is longer than the vector, which cannot be on a
first read, still ends inside of it, as does its entry of the record; and a tick
of less than 20 bytes leaves room for the entry. -/
def Ample (args : ReassembledArgs) (state : State) (recv : Recv) : Prop :=
  ∀ copy, roundCopy args state recv = some copy →
    (copy.ready.veryFirstRead = false → copy.ready.capacity < copy.header.length.toNat →
      copy.dataEnd ≤ copy.ready.capacity ∧ copy.recordEnd ≤ copy.ready.capacity) ∧
    (copy.header.length.toNat < 20 → copy.recordEnd ≤ copy.capacity args)

theorem roundCopy_sent {copy : Copy} (copies : roundCopy args state sent.recv = some copy) :
    plan (state.received sent.bytes) copy.header ((state.received sent.bytes).description args) =
      .copy copy.ready ∧
    Carries sent.args (cut sent.args sent.index).1 copy.header ∧
    copy.payload = payload sent.args sent.index := by
  have long : ¬ (sent.bytes.take 9100).length < reHeaderBytes := by
    rw [sent.bytes_take, sent.bytes_length]
    omega
  simp only [roundCopy, Sent.recv, if_neg long] at copies
  split at copies
  case h_1 => cases copies
  case h_2 ready planned =>
    cases copies
    exact ⟨planned, header_received state sent args, payload_received state sent⟩

theorem reserve_capacity (length : Nat) : length ≤ (state.reserve args length).capacity := by
  unfold State.reserve
  split_ifs with enough
  · exact enough
  · exact args.enough length

/-- The check of the capacity makes room for a length on a first read. -/
theorem expand_capacity {length : UInt32} (known : state.bufLen ≤ state.capacity)
    (first : state.veryFirstRead = true) :
    length.toNat ≤ (state.expand args length).capacity := by
  unfold State.expand
  split_ifs with more
  · exact reserve_capacity state length.toNat
  · rw [not_and, not_lt] at more
    exact (more first).trans known

theorem expand_known {length : UInt32} (known : state.bufLen ≤ state.capacity) :
    (state.expand args length).bufLen ≤ (state.expand args length).capacity := by
  unfold State.expand
  split_ifs
  · exact reserve_capacity state length.toNat
  · exact known

/-- The check of the capacity is about the storage only. -/
theorem expand_same (args : ReassembledArgs) (length : UInt32) :
    (state.expand args length).pktCount = state.pktCount ∧
      (state.expand args length).totalPkts = state.totalPkts ∧
      (state.expand args length).dumpTick = state.dumpTick ∧
      (state.expand args length).srcId = state.srcId := by
  unfold State.expand State.reserve
  split_ifs <;> exact ⟨rfl, rfl, rfl, rfl⟩

theorem expand_of_not_first {length : UInt32} (past : state.veryFirstRead = false) :
    state.expand args length = state :=
  if_neg (by simp [past])

/-- The record does not reach so far that its place wraps. -/
theorem Sent.recordPlace {ready : State}
    (counted : ready.pktCount.toNat < sent.args.totalPackets.toNat) :
    12 * ready.pktCount.toNat < sent.args.dataLen.toNat ∧
      ready.recordPlace = 12 + 4 * ready.pktCount.toNat := by
  rcases sent.sizes with ⟨least, -, -, total, -⟩
  have small : sent.args.dataLen.toNat < 2 ^ 32 := sent.args.dataLen.toNat_lt
  rw [total, lt_iff_lt_of_le_iff_le (ceilDiv_le_iff_le_mul (by omega))] at counted
  have twelve : 12 * ready.pktCount.toNat ≤ size sent.args * ready.pktCount.toNat :=
    Nat.mul_le_mul_right _ least
  have place : (4 * ready.pktCount).toNat = 4 * ready.pktCount.toNat := by
    rw [UInt32.toNat_mul]
    exact Nat.mod_eq_of_lt (by show 4 * ready.pktCount.toNat < 2 ^ 32; omega)
  exact ⟨lt_of_le_of_lt twelve counted, by rw [State.recordPlace, place]⟩

/-- What a packet of a call writes ends inside of its data, as does the entry of
the record, if the data is at least 20 bytes long. -/
theorem Sent.ends {ready : State} {header : ReFields}
    (carries : Carries sent.args (cut sent.args sent.index).1 header)
    (counted : ready.pktCount.toNat < sent.args.totalPackets.toNat) :
    header.offset.toNat + (payload sent.args sent.index).length ≤ header.length.toNat ∧
      (20 ≤ header.length.toNat → ready.recordPlace + 4 ≤ header.length.toNat) := by
  rcases sent.sizes with ⟨-, -, -, -, starts⟩
  rcases sent.recordPlace counted with ⟨before, place⟩
  rw [carries.offset, carries.length, sent.offset_toNat, sent.payload_length, place]
  omega

/-! ### Along a run -/

/-- The packets read of a tick. -/
def readOf (tick : UInt64) (seen : List Sent) : Nat :=
  seen.countP fun sent => sent.args.tick = tick

/-- Distinct numbers below a bound are not more than it. -/
theorem length_le_of_nodup_of_lt {numbers : List Nat} (nodup : numbers.Nodup) {bound : Nat}
    (below : ∀ number ∈ numbers, number < bound) : numbers.length ≤ bound := by
  have subset : numbers ⊆ List.range bound := fun number member =>
    List.mem_range.mpr (below number member)
  have le := (List.subperm_of_subset nodup subset).length_le
  rwa [List.length_range] at le

/-- Before a packet arrives, fewer of its tick have than there are. -/
theorem readOf_lt {seen rest : List Sent} (traffic : Sent.Traffic (seen ++ sent :: rest)) :
    readOf sent.args.tick seen < sent.args.totalPackets.toNat := by
  let ofTick := (seen ++ [sent]).filter fun other => other.args.tick = sent.args.tick
  have count : ofTick.length = readOf sent.args.tick seen + 1 := by
    simp [ofTick, readOf, List.countP_eq_length_filter]
  have sublist : ofTick.Sublist (seen ++ sent :: rest) := List.filter_sublist.trans (by simp)
  have sameTick : ∀ other ∈ ofTick, other.args.tick = sent.args.tick := fun other isOther => by
    simpa using (List.mem_filter.mp isOther).2
  have nodup : (ofTick.map Sent.index).Nodup := by
    have keys := traffic.nodup.sublist (sublist.map _)
    have same : ofTick.map (fun sent => (sent.args.tick, sent.index)) =
        (ofTick.map Sent.index).map fun index => (sent.args.tick, index) := by
      rw [List.map_map]
      apply List.map_congr_left
      intro other isOther
      rw [Function.comp_apply, sameTick other isOther]
    rw [same] at keys
    exact keys.of_map _
  have below : ∀ index ∈ ofTick.map Sent.index, index < sent.args.totalPackets.toNat := by
    intro index isIndex
    rcases List.mem_map.mp isIndex with ⟨other, isOther, rfl⟩
    rw [← traffic.perTick other (sublist.mem isOther) sent (by simp) (sameTick other isOther)]
    exact other.isPacket.1
  have le := length_le_of_nodup_of_lt nodup below
  rw [List.length_map, count] at le
  exact le

/-- The capacity is at least what the call takes for it, and the packets counted
of an unfinished tick have been read. -/
structure Follows (seen : List Sent) (state : State) : Prop where
  known : state.bufLen ≤ state.capacity
  counted : state.veryFirstRead = false → state.pktCount.toNat ≤ readOf state.prevTick seen

theorem follows_ready {seen rest : List Sent} {state : State}
    (traffic : Sent.Traffic (seen ++ sent :: rest)) (follows : Follows seen state)
    {ready : State} {header : ReFields} {data : PacketData}
    (carries : Carries sent.args (cut sent.args sent.index).1 header)
    (planned : plan (state.received sent.bytes) header data = .copy ready) :
    ready.bufLen ≤ ready.capacity ∧ ready.pktCount.toNat ≤ readOf sent.args.tick seen ∧
      ready.pktCount.toNat < sent.args.totalPackets.toNat := by
  have less := readOf_lt sent traffic
  rcases plan_copy planned with ⟨capacity, bufLen, -, -, noPackets | ⟨past, same, count⟩⟩
  · rw [capacity, bufLen, noPackets]
    exact ⟨follows.known, Nat.zero_le _, lt_of_le_of_lt (Nat.zero_le _) less⟩
  · have bounded := follows.counted past
    rw [capacity, bufLen, count, ← carries.tick, same]
    rw [← carries.tick, same] at less
    exact ⟨follows.known, bounded, lt_of_le_of_lt bounded less⟩

theorem copiesInside_iff {seen rest : List Sent} {state : State}
    (traffic : Sent.Traffic (seen ++ sent :: rest)) (follows : Follows seen state) :
    CopiesInside args state sent.recv ↔ Ample args state sent.recv := by
  apply forall₂_congr
  intro copy copies
  rcases roundCopy_sent state sent copies with ⟨planned, carries, isPayload⟩
  rcases follows_ready sent traffic follows carries planned with ⟨known, -, counted⟩
  rcases sent.ends carries counted with ⟨dataInside, recordInside⟩
  rw [← isPayload] at dataInside
  change copy.dataEnd ≤ _ at dataInside
  change _ → copy.recordEnd ≤ _ at recordInside
  cases first : copy.ready.veryFirstRead with
  | true =>
      have room : copy.header.length.toNat ≤ copy.capacity args :=
        expand_capacity copy.ready known first
      simp only [reduceCtorEq, false_implies, true_and]
      omega
  | false =>
      have same : copy.capacity args = copy.ready.capacity :=
        congrArg State.capacity (expand_of_not_first copy.ready first)
      rw [same]
      simp only [true_implies]
      omega

theorem follows_again {seen rest : List Sent} {state next : State}
    (traffic : Sent.Traffic (seen ++ sent :: rest)) (follows : Follows seen state)
    (step : round args state sent.recv = .again next) : Follows (seen ++ [sent]) next := by
  have more (tick : UInt64) : readOf tick (seen ++ [sent]) =
      readOf tick seen + if sent.args.tick = tick then 1 else 0 := by
    simp [readOf, List.countP_append, List.countP_cons]
  rw [round_sent, handle] at step
  cases planned : plan (state.received sent.bytes) ((state.received sent.bytes).header args)
      ((state.received sent.bytes).description args) with
  | pass passed =>
      simp only [planned, Round.again.injEq] at step
      subst step
      rcases plan_pass planned with ⟨capacity, bufLen, kept⟩
      constructor
      · rw [capacity, bufLen]
        exact follows.known
      · intro past
        rcases kept past with ⟨wasPast, tick, count⟩
        have bounded := follows.counted wasPast
        rw [tick, count, more]
        exact Nat.le_add_right_of_le bounded
  | copy ready =>
      have carries := header_received state sent args
      rcases follows_ready sent traffic follows carries planned with ⟨known, bounded, less⟩
      simp only [planned, copyData] at step
      split_ifs at step
      cases step
      constructor
      · exact expand_known ready known
      · intro _
        have count : ((ready.expand args ((state.received sent.bytes).header args).length).pktCount
            + 1).toNat = ready.pktCount.toNat + 1 := by
          have small : sent.args.totalPackets.toNat < 2 ^ 32 := sent.args.totalPackets.toNat_lt
          rw [(expand_same ready args _).1, UInt32.toNat_add]
          exact Nat.mod_eq_of_lt (by show ready.pktCount.toNat + 1 < 2 ^ 32; omega)
        show UInt32.toNat (_ + 1) ≤ readOf ((state.received sent.bytes).header args).tick _
        rw [count, carries.tick, more, if_pos rfl]
        exact Nat.succ_le_succ bounded

/-- Every copy of a call stays inside of the vector exactly when the packets of
ticks that began elsewhere than on a first read, and the entries of the record
for ticks shorter than 20 bytes, do. -/
theorem getReassembledBuffer_copiesInside_iff (args : ReassembledArgs) (packets : List Sent)
    (traffic : Sent.Traffic packets) :
    Along (round args) (CopiesInside args) (start args) (packets.map Sent.recv) ↔
      Along (round args) (Ample args) (start args) (packets.map Sent.recv) := by
  refine along_congr_of_history Sent.recv Follows ?_ ?_ ⟨le_rfl, nofun⟩
  · intro seen sent rest state split follows
    exact copiesInside_iff sent (split ▸ traffic) follows
  · intro seen sent rest state next split follows _ step
    exact follows_again sent (split ▸ traffic) follows step

/-- A call with a vector of 24 bytes. -/
def sampleCall : ReassembledArgs where
  host := .little
  dataBuf := fun _ => 0
  bufLen := 24
  tick := 8
  wantsDataId := true
  stats := none
  tickPrescale := 1
  size := 0
  reserved := id
  enough := fun _ => le_rfl
  fresh := fun _ => 0
  pkt := fun _ => 0

/-- The first of two packets of a tick, and the only one of a longer tick. -/
def overtaken : List Sent :=
  [.ofCall { Packetize.Grpc.sampleArgs with dataLen := 24, maxUdpPayload := 12, tick := 8 } 0
      (by decide) (by decide) (by decide),
    .ofCall { Packetize.Grpc.sampleArgs with dataLen := 28, maxUdpPayload := 28, tick := 9 } 0
      (by decide) (by decide) (by decide)]

theorem overtaken_traffic : Sent.Traffic overtaken where
  perTick := by
    intro first isFirst second isSecond same
    simp only [overtaken, List.mem_cons, List.not_mem_nil, or_false] at isFirst isSecond
    rcases isFirst with rfl | rfl <;> rcases isSecond with rfl | rfl
    · rfl
    · exact absurd same (by decide)
    · exact absurd same (by decide)
    · rfl
  nodup := by decide

theorem getReassembledBuffer_copiesInside_iff_sample :
    Along (round sampleCall) (CopiesInside sampleCall) (start sampleCall)
        (overtaken.map Sent.recv) ↔
      Along (round sampleCall) (Ample sampleCall) (start sampleCall) (overtaken.map Sent.recv) :=
  getReassembledBuffer_copiesInside_iff sampleCall overtaken overtaken_traffic

/-- The second tick begins while the first one is not complete, and its 28
bytes are copied to a vector of 24. -/
theorem not_copiesInside_overtaken :
    ¬ Along (round sampleCall) (CopiesInside sampleCall) (start sampleCall)
      (overtaken.map Sent.recv) := by
  intro inside
  have begun : ∃ next, round sampleCall (start sampleCall) (overtaken[0].recv) = .again next ∧
      ∃ copy, roundCopy sampleCall next (overtaken[1].recv) = some copy ∧
        copy.capacity sampleCall < copy.dataEnd := ⟨_, rfl, _, rfl, by decide⟩
  rcases begun with ⟨next, step, copy, copies, beyond⟩
  have later := ((along_cons_of_again step [overtaken[1].recv]).mp inside).2
  exact absurd (later.head copy copies).1 (not_le.mpr beyond)

end Reassembled

end Dift.Assemble
