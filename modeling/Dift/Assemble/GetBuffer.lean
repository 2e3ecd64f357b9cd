import Dift.Assemble.Allocated
import Dift.Assemble.RoundTrip
import Dift.Foundation.Doubling
import Dift.Packetize.SendBuffer

/-!
Owns `getBuffer`, which opens a socket and reads one buffer from it, into the
caller's memory or into memory of its own, and the theorems that it is the
inverse of `sendBuffer`. In the caller's memory every order of arrival that
begins with the first packet will do. Memory of its own is doubled at most once
a packet: the orders in which that suffices are exactly those that are
reassembled, the order of sending is one of them, and what is allocated in the
end does not depend on the order.
-/

namespace Dift.Packetize

open Dift.Foundation
open Dift.Wire

/-- The data that the caller asks to send. -/
def SendBufferArgs.data (args : SendBufferArgs) : List UInt8 :=
  args.memory.read args.buffer args.bufLen.toNat

namespace SendBuffer

variable {network : Network} {args : SendBufferArgs}

/-! ### What a successful call puts on the wire -/

/-- The call returns 0 and its socket has accepted these datagrams. -/
def Sent (network : Network) (args : SendBufferArgs) (datagrams : List (List UInt8)) : Prop :=
  Sends network args ∧
    if args.fast then
      ∃ outcome, FastNewReturns network.socket (args.fastNew network) outcome ∧
        outcome.ret = 0 ∧ outcome.sent = datagrams
    else
      ∃ outcome, SendNewReturns network.socket (args.sendNew network) outcome ∧
        outcome.ret = 0 ∧ outcome.sent = datagrams

/-- A call that returns 0 has sent its datagrams. -/
theorem exists_sent {fuel : Nat} {reported : Option (Int × Int)}
    (returns : sendBuffer network args fuel = some ⟨0, reported⟩) :
    ∃ datagrams, Sent network args datagrams := by
  unfold sendBuffer at returns
  split_ifs at returns with closed fails fast
  · cases returns
  · have code := congrArg SendBufferOutcome.ret (Option.some.inj returns)
    dsimp only at code
    omega
  · obtain ⟨outcome, ends, same⟩ := Option.map_eq_some_iff.mp returns
    have sends : Sends network args := ⟨by simpa using closed, by omega⟩
    have code : outcome.ret = 0 := congrArg SendBufferOutcome.ret same
    have sent : Sent network args outcome.sent := by
      rw [Sent, if_pos fast]
      exact ⟨sends, outcome, ⟨fuel, ends⟩, code, rfl⟩
    exact ⟨outcome.sent, sent⟩
  · obtain ⟨outcome, ends, same⟩ := Option.map_eq_some_iff.mp returns
    have sends : Sends network args := ⟨by simpa using closed, by omega⟩
    have code : outcome.ret = 0 := congrArg SendBufferOutcome.ret same
    have sent : Sent network args outcome.sent := by
      rw [Sent, if_neg fast]
      exact ⟨sends, outcome, ⟨fuel, ends⟩, code, rfl⟩
    exact ⟨outcome.sent, sent⟩

/-- What the caller and the system owe a call: the payload size fits a datagram,
the version its four bits, the in-place sender has room for headers before the
buffer, and the socket takes datagrams with one byte of data. -/
structure Served (network : Network) (args : SendBufferArgs) : Prop where
  payload : 1 ≤ args.maxUdpPayload network ∧ args.maxUdpPayload network ≤ 65500
  version : 0 ≤ args.version ∧ args.version < 16
  nonempty : 0 < args.bufLen.toNat
  scratch : args.fast = true → headerBytes ≤ args.buffer
  takes : ∀ attempts datagram, datagram.length ≤ headerBytes + 1 →
    network.socket.send attempts datagram = none

section Served

variable (served : Served network args)

include served

theorem Served.tame : (SendNew.job network.socket (args.sendNew network)).Tame := by
  intro attempts datagram refused
  by_contra short
  apply refused
  simp only [SendNew.job, Copying.job, SendNew.style, SendBufferArgs.sendNew]
  exact served.takes attempts datagram (not_lt.mp short)

/-- The in-place sender does the job of the copying one. -/
theorem Served.implements (fast : args.fast = true) :
    (SendNew.job network.socket (args.sendNew network)).Implements fun outcome =>
      ∃ result, FastNewReturns network.socket (args.fastNew network) result ∧
        result.toSendOutcome = outcome :=
  InPlace.implements (FastNew.serves_job network.socket (args.fastNew network))
    (served.scratch fast) served.tame

/-- A successful call of either sender has sent pieces of the whole buffer. -/
theorem Served.sentAll {datagrams : List (List UInt8)} (sent : Sent network args datagrams) :
    ∃ pieces outcome, SendNew.SentAll (args.sendNew network) pieces outcome ∧
      outcome.sent = datagrams := by
  rcases sent with ⟨-, sent⟩
  split_ifs at sent with fast
  · rcases sent with ⟨outcome, returns, code, rfl⟩
    obtain ⟨final, ends, reports⟩ := (served.implements fast).explains ⟨outcome, returns, rfl⟩
    obtain ⟨pieces, all⟩ := SendNew.sentAll_of_reports served.payload served.tame ends
      (reports.ret.symm.trans code) reports
    exact ⟨pieces, _, all, rfl⟩
  · rcases sent with ⟨outcome, returns, code, rfl⟩
    obtain ⟨final, ends, reports⟩ :=
      (SendNew.implements network.socket (args.sendNew network)).explains returns
    obtain ⟨pieces, all⟩ := SendNew.sentAll_of_reports served.payload served.tame ends
      (reports.ret.symm.trans code) reports
    exact ⟨pieces, outcome, all, rfl⟩

/-- The call comes to an end. -/
theorem Served.exists_returns :
    ∃ fuel outcome, sendBuffer network args fuel = some outcome := by
  by_cases sends : Sends network args
  · have opens : ¬ network.opens args.useIPv6 = false := by simp [sends.1]
    have connects : ¬ args.connected network < 0 := not_lt.mpr sends.2
    obtain ⟨final, ends⟩ := Job.exists_returns served.payload served.tame
    by_cases fast : args.fast = true
    · obtain ⟨-, ⟨outcome, ⟨fuel, returns⟩, -⟩, -⟩ := (served.implements fast).completes ends
      exact ⟨fuel, _, by rw [sendBuffer, if_neg opens, if_neg connects, if_pos fast, returns]; rfl⟩
    · obtain ⟨outcome, ⟨fuel, returns⟩, -⟩ :=
        (SendNew.implements network.socket (args.sendNew network)).completes ends
      exact ⟨fuel, _, by rw [sendBuffer, if_neg opens, if_neg connects, if_neg fast, returns]; rfl⟩
  · exact terminates_of_not_sends sends

end Served

end SendBuffer

end Dift.Packetize

namespace Dift.Assemble

open Dift.Foundation
open Dift.Wire
open Dift.Packetize

/-! ### The receiving call -/

def networkError : Int := -9

/-- What `getBuffer` learns from the system: whether a socket can be created,
what arrives at a port of an address, and what `malloc` and `realloc` give. -/
structure Listener where
  opens : Bool → Bool
  receives : Bool → UInt16 → Option String → List Recv
  fresh : Mem
  allocates : Nat → Bool

/-- The arguments of `getBuffer`. A pointer that is null is `none`: `userBuf`
itself, what it points to, `userBufLen` and `listeningAddr`. -/
structure GetBufferArgs where
  machine : ByteOrder
  userBuf : Option (Option Mem)
  userBufLen : Option Nat
  port : UInt16
  listeningAddr : Option String
  noCopy : Bool
  useIPv6 : Bool

/-- What a call leaves behind: the returned value, `*userBufLen` and, when the
call succeeds, the memory that `*userBuf` points to; `newBuf` says that the call
has allocated it. -/
structure GetBufferOutcome where
  ret : Int
  userBuf : Option Mem
  userBufLen : Option Nat
  newBuf : Bool

/-- How a call ends, as in `AllocatedExit`. -/
inductive GetBufferExit where
  | returned (outcome : GetBufferOutcome)
  | divideByZero
  | outOfBounds

namespace GetBufferArgs

/-- The port that is read: a privileged one is replaced. -/
def listeningPort (args : GetBufferArgs) : UInt16 :=
  if args.port < 1024 then 17750 else args.port

/-- The address that is read: any address when none is given. -/
def address (args : GetBufferArgs) : Option String :=
  args.listeningAddr.filter fun address => !address.isEmpty

/-- What arrives at the socket. -/
def stream (args : GetBufferArgs) (listener : Listener) : List Recv :=
  listener.receives args.useIPv6 args.listeningPort args.address

/-- Return an error before anything is read. -/
def refuse (args : GetBufferArgs) (code : Int) : GetBufferExit :=
  .returned ⟨code, none, args.userBufLen, false⟩

/-- The reading call: tick 0 is expected, no statistics are kept. -/
def complete (args : GetBufferArgs) (dataBuf : Mem) (bufLen : Nat) : CompleteArgs where
  host := args.machine
  dataBuf := dataBuf
  bufLen := bufLen
  tick := 0
  wantsDataId := false
  stats := none
  tickPrescale := 1

def allocated (args : GetBufferArgs) (listener : Listener) (userBuf : Option Mem)
    (bufLen : Nat) : AllocatedArgs where
  toCompleteArgs := args.complete (userBuf.getD listener.fresh) bufLen
  nullArgs := false
  given := userBuf.isSome
  fresh := listener.fresh
  allocates := listener.allocates

end GetBufferArgs

/-- The end of a reading call: an error is passed on, a byte count is not. -/
def passOn (outcome : Outcome) (bufLen : Nat) (newBuf : Bool) : GetBufferExit :=
  if outcome.ret < 0 then .returned ⟨outcome.ret, none, bufLen, false⟩
  else .returned ⟨0, outcome.dataBuf, bufLen, newBuf⟩

/-- A call, with what it leaves unread; it is `waiting` when the datagrams that
arrive are not enough. -/
def getBuffer (listener : Listener) (args : GetBufferArgs) : Fed Unit GetBufferExit Recv :=
  let stream := args.stream listener
  match args.userBuf, args.userBufLen with
  | none, _ => .left (args.refuse badArg) stream
  | _, none => .left (args.refuse badArg) stream
  | some userBuf, some bufLen =>
      if listener.opens args.useIPv6 = false then .left (args.refuse networkError) stream
      else if args.noCopy then
        match userBuf with
        | none => .left (args.refuse badArg) stream
        | some dataBuf =>
            match getCompletePacketizedBuffer (args.complete dataBuf bufLen) stream with
            | .waiting _ => .waiting ()
            | .left (.returned outcome) rest => .left (passOn outcome bufLen false) rest
            | .left .divideByZero rest => .left .divideByZero rest
      else
        match getCompleteAllocatedBuffer (args.allocated listener userBuf bufLen) stream with
        | .waiting _ => .waiting ()
        | .left (.returned outcome) rest =>
            .left (passOn outcome.toOutcome outcome.pBufLen outcome.newBuf) rest
        | .left .divideByZero rest => .left .divideByZero rest
        | .left .outOfBounds rest => .left .outOfBounds rest

/-! ### The datagrams as packets -/

section Wire

variable {send : SendNewArgs} {pieces : List (List UInt8)} {outcome : SendOutcome}

/-- A call from offset 0 that sent everything puts the packets of one
transmission on the wire. -/
theorem sentAll_transmission (version : 0 ≤ send.version ∧ send.version < 16)
    (payload : 1 ≤ send.maxUdpPayload ∧ send.maxUdpPayload ≤ 65500) (begins : send.offset = 0)
    (nonempty : 0 < send.dataLen) (fullLen : send.fullLen.toNat = send.dataLen)
    (all : SendNew.SentAll send pieces outcome) :
    ∃ transmission : Transmission, transmission.chunks = pieces ∧
      transmission.payload = send.data ∧
      outcome.sent.map (stripped send.direct) =
        (transmission.packets send.tick send.dataId).map Packet.bytes := by
  have size : toSize send.maxUdpPayload = send.maxUdpPayload.toNat :=
    toSize_of_nonneg (by omega) (by omega)
  have length : pieces.flatten.length = send.fullLen.toNat := by
    rw [all.data, fullLen, SendArgs.data, Memory.read_length]
  have short : pieces.flatten.length < 2 ^ 32 := length ▸ send.fullLen.toNat_lt
  have hasPieces : pieces ≠ [] := by
    rintro rfl
    rw [List.flatten_nil, List.length_nil] at length
    omega
  have sized : ∀ piece ∈ pieces, piece ≠ [] ∧ piece.length ≤ 65500 := by
    intro piece member
    rcases all.sized piece member with ⟨limit, hasData⟩
    exact ⟨hasData nonempty, by omega⟩
  have place : send.offset.toNat = 0 := by rw [begins]; rfl
  have total : UInt32.ofNat pieces.flatten.length = send.fullLen := by
    rw [length, UInt32.ofNat_toNat]
  refine ⟨seriesTransmission send pieces version.1 version.2 hasPieces sized short, rfl, all.data, ?_⟩
  rw [all.sent, place, SendNew.datagrams, Transmission.packets, List.map_map, List.map_map]
  apply List.map_congr_left
  intro piece _
  simp only [Function.comp_apply, stripped_datagram, Packet.bytes, Transmission.packet,
    Transmission.payload, seriesTransmission, total]

/-- The datagrams of a successful call are the packets of one transmission of
the caller's data. -/
theorem sent_transmission {network : Network} {args : SendBufferArgs}
    (served : SendBuffer.Served network args) {datagrams : List (List UInt8)}
    (sent : SendBuffer.Sent network args datagrams) :
    ∃ transmission : Transmission, transmission.payload = args.data ∧
      (∀ chunk ∈ transmission.chunks, chunk.length ≤ (args.maxUdpPayload network).toNat) ∧
      datagrams.map (stripped false) =
        (transmission.packets args.tick args.dataId).map Packet.bytes := by
  rcases served.sentAll sent with ⟨pieces, outcome, all, rfl⟩
  rcases sentAll_transmission served.version served.payload rfl served.nonempty rfl all with
    ⟨transmission, rfl, payload, wire⟩
  refine ⟨transmission, payload, ?_, wire⟩
  intro chunk member
  have size : toSize (args.maxUdpPayload network) = (args.maxUdpPayload network).toNat := by
    have bounds := served.payload
    exact toSize_of_nonneg (by omega) (by omega)
  exact size ▸ (all.sized chunk member).1

end Wire

/-- Datagrams are what the receiver reads of their packets. -/
theorem delivered_packets {datagrams : List (List UInt8)} {packets : List Packet}
    (bytes : datagrams.map (stripped false) = packets.map Packet.bytes) :
    datagrams.map (delivered false) = packets.map Packet.recv := by
  have wrapped := congrArg (List.map Recv.datagram) bytes
  rwa [List.map_map, List.map_map] at wrapped

/-- Datagrams that arrive in some order are packets in some order; the offset of
the first is the one that is read from it. -/
theorem arrive_packets {packets : List Packet} {datagrams : List (List UInt8)} (host : ByteOrder)
    (wire : datagrams.map (stripped false) = packets.map Packet.bytes)
    (wellFormed : ∀ packet ∈ packets, packet.WellFormed)
    {first : List UInt8} {others : List (List UInt8)} (order : (first :: others).Perm datagrams)
    (begins : arrivedOffset host (stripped false first) = 0) :
    ∃ packet later, (packet :: later).Perm packets ∧ packet.offset = 0 ∧
      (first :: others).map (stripped false) = (packet :: later).map Packet.bytes := by
  have arrived : ((first :: others).map (stripped false)).Perm (packets.map Packet.bytes) :=
    wire ▸ order.map _
  rcases exists_perm_map arrived with ⟨arranged, same, bytes⟩
  cases arranged with
  | nil => simp at bytes
  | cons packet later =>
      have firstBytes : packet.bytes = stripped false first := (List.cons.inj bytes).1
      rw [← firstBytes, arrivedOffset_bytes host
        (wellFormed packet (same.subset (by simp)))] at begins
      exact ⟨packet, later, same, begins, bytes.symm⟩

/-! ### Into the caller's memory -/

/-- `getBuffer` restores what `sendBuffer` sent. A call of either sender ends;
the datagrams of one that returns 0, however often the payload size was reduced,
arriving in any order that begins with the one at offset 0, make `getBuffer`
return 0 with the data in the caller's memory, whatever arrives after them. -/
theorem getBuffer_sendBuffer (network : Network) (send : SendBufferArgs)
    (served : SendBuffer.Served network send) :
    (∃ fuel outcome, sendBuffer network send fuel = some outcome) ∧
    (∀ fuel reported, sendBuffer network send fuel = some ⟨0, reported⟩ →
      ∃ datagrams, SendBuffer.Sent network send datagrams) ∧
    ∀ datagrams, SendBuffer.Sent network send datagrams →
    ∀ (listener : Listener) (receive : GetBufferArgs) (dataBuf : Mem) (bufLen : Nat),
      receive.userBuf = some (some dataBuf) → receive.userBufLen = some bufLen →
      receive.noCopy = true → listener.opens receive.useIPv6 = true →
      send.data.length ≤ bufLen →
    ∀ (first : List UInt8) (others : List (List UInt8)) (rest : List Recv),
      (first :: others).Perm datagrams →
      arrivedOffset receive.machine (stripped false first) = 0 →
      receive.stream listener = (first :: others).map (delivered false) ++ rest →
    ∃ after, getBuffer listener receive =
        .left (.returned ⟨0, some after, some bufLen, false⟩) rest ∧
      after.read 0 send.data.length = send.data := by
  refine ⟨served.exists_returns, fun _ _ returns => SendBuffer.exists_sent returns, ?_⟩
  intro datagrams sent listener receive dataBuf bufLen userBuf userBufLen noCopy opens room first others rest
    order begins arrives
  rcases sent_transmission served sent with ⟨transmission, payload, -, wire⟩
  rcases arrive_packets receive.machine wire (fun packet => Transmission.mem_wellFormed) order
    begins with ⟨packet, later, same, starts, bytes⟩
  rw [← payload] at room ⊢
  have whole : (receive.complete dataBuf bufLen).stats = none ∨
      (receive.complete dataBuf bufLen).tickPrescale ≠ 0 := .inl rfl
  rcases reassemble_perm whole room same starts rest with ⟨outcome, reads, ret, data, -, -⟩
  rw [← delivered_packets bytes, ← arrives] at reads
  have success : ¬ outcome.ret < 0 := by omega
  refine ⟨outcome.dataBuf, ?_, data⟩
  simp only [getBuffer, userBuf, userBufLen, opens, noCopy, reads, passOn, if_neg success]
  rfl

/-! Three bytes, one in each datagram, of which the last two change places. -/

def sampleThree : SendBufferArgs :=
  { SendBuffer.sampleSendBuffer with
    mtu := 63
    bufLen := 3
    mtu_int := by decide }

def sampleThreeOutcome : SendOutcome where
  ret := 0
  offset := 3
  packetsSent := 3
  delayCounter := 1
  sent := [SendNew.datagram (sampleThree.sendNew SendBuffer.sampleNetwork) 0 [64],
    SendNew.datagram (sampleThree.sendNew SendBuffer.sampleNetwork) 1 [65],
    SendNew.datagram (sampleThree.sendNew SendBuffer.sampleNetwork) 2 [66]]

theorem sampleThree_served : SendBuffer.Served SendBuffer.sampleNetwork sampleThree where
  payload := by decide
  version := by decide
  nonempty := by decide
  scratch := nofun
  takes := fun _ _ _ => rfl

theorem sampleThree_sent :
    SendBuffer.Sent SendBuffer.sampleNetwork sampleThree sampleThreeOutcome.sent :=
  ⟨SendBuffer.sampleSendBuffer_sends, sampleThreeOutcome, ⟨4, by decide⟩, rfl, rfl⟩

/-- The datagrams as they arrive. -/
def sampleThreeArrived : List (List UInt8) :=
  [SendNew.datagram (sampleThree.sendNew SendBuffer.sampleNetwork) 0 [64],
    SendNew.datagram (sampleThree.sendNew SendBuffer.sampleNetwork) 2 [66],
    SendNew.datagram (sampleThree.sendNew SendBuffer.sampleNetwork) 1 [65]]

def sampleListener : Listener where
  opens _ := true
  receives _ _ _ := sampleThreeArrived.map (delivered false)
  fresh := fun _ => 0
  allocates _ := true

def sampleGetBuffer : GetBufferArgs where
  machine := .big
  userBuf := some (some fun _ => 0)
  userBufLen := some 4
  port := 0
  listeningAddr := none
  noCopy := true
  useIPv6 := false

theorem getBuffer_sendBuffer_sample :
    ∃ after, getBuffer sampleListener sampleGetBuffer =
        .left (.returned ⟨0, some after, some 4, false⟩) [] ∧
      after.read 0 sampleThree.data.length = sampleThree.data :=
  (getBuffer_sendBuffer SendBuffer.sampleNetwork sampleThree sampleThree_served).2.2 _
    sampleThree_sent sampleListener sampleGetBuffer (fun _ => 0) 4 rfl rfl rfl rfl (by decide) _ _ []
    (.cons _ (.swap _ _ _)) (by decide) rfl

/-! ### Into memory of its own -/

/-- Where the data of a packet ends. -/
def Packet.limit (packet : Packet) : Nat :=
  packet.offset.toNat + packet.payload.length

namespace Allocated

open Complete (Tracks)

variable {args : AllocatedArgs} {packet : Packet} {got : List (Placed UInt8)}
  {state : Complete.State}

/-- The variables in front of a copy, without the buffer. -/
structure Ready (dataId : UInt16) (got : List (Placed UInt8)) (ready : Complete.State) :
    Prop where
  kept : ready.dumpTick = false
  source : ready.srcId = dataId
  count : ready.totalBytesRead = weight got
  noStats : ready.stats = none

theorem plan_building (packet : Packet)
    (tracks : Tracks (.building packet.tick packet.dataId got) state)
    (noStats : state.stats = none) :
    ∃ ready, Complete.plan state (Complete.fields packet) packet.payload = .copy ready ∧
      Ready packet.dataId got ready := by
  obtain ⟨notFirst, kept, sameTick, source, count⟩ := tracks
  have decided := Complete.plan_known state (Complete.fields packet) packet.payload notFirst
    source.symm
  rw [Complete.planTick_same (state.parsed (Complete.fields packet)) sameTick.symm kept] at decided
  exact ⟨_, decided, kept, source, count, noStats⟩

theorem plan_fresh (packet : Packet) (tracks : Tracks .fresh state) (noStats : state.stats = none)
    (begins : packet.offset = 0) (hasData : packet.payload ≠ []) :
    ∃ ready, Complete.plan state (Complete.fields packet) packet.payload = .copy ready ∧
      Ready packet.dataId [] ready := by
  obtain ⟨first, kept, noTick⟩ := tracks
  have decided := Complete.plan_first state (Complete.fields packet) first hasData
  by_cases same : (Complete.fields packet).tick = state.prevTick
  · rw [Complete.planTick_same
      (state.firstRead (Complete.fields packet) packet.payload) same kept] at decided
    exact ⟨_, decided, kept, rfl, rfl, noStats⟩
  · rw [Complete.planTick_begin
      (state.firstRead (Complete.fields packet) packet.payload) same begins first] at decided
    exact ⟨_, decided, rfl, rfl, rfl, noStats⟩

/-- A packet is written after one request for room. -/
theorem copyData_grow (allocates : ∀ size, args.allocates size = true)
    (wellFormed : packet.WellFormed) (ready : Complete.State) (dataBuf : Mem) (bufLen : Nat)
    (allocateBuf : Bool) :
    ∃ newBuf, copyData args (carry ready dataBuf bufLen allocateBuf) (Complete.fields packet)
        packet.payload =
      writeData args (carry ready dataBuf (Doubling.grow bufLen packet.limit) newBuf)
        (Complete.fields packet) packet.payload := by
  have short : packet.payload.length < 2 ^ 32 := by
    have fits := wellFormed.fits
    omega
  have place : (Complete.fields packet).offset.toNat + packet.payload.length = packet.limit := rfl
  unfold copyData Doubling.grow
  rw [place]
  by_cases tooSmall : bufLen < packet.limit
  · have below : (Complete.fields packet).offset.toNat + packet.payload.length < 2 ^ 33 :=
      end_lt short
    have doubled : bufLen * 2 % 2 ^ 64 = 2 * bufLen := doubled_eq tooSmall below
    have size : (carry ready dataBuf bufLen allocateBuf).bufLen = bufLen := rfl
    rw [size, if_pos tooSmall, if_pos tooSmall, doubled, if_pos (allocates _)]
    exact ⟨true, rfl⟩
  · have size : (carry ready dataBuf bufLen allocateBuf).bufLen = bufLen := rfl
    rw [size, if_neg tooSmall, if_neg tooSmall]
    exact ⟨allocateBuf, rfl⟩

/-- What the call has done after some packets of one build: the buffer holds
their data, and it has grown for each of them. -/
structure Building (args : AllocatedArgs) (tick : UInt64) (dataId : UInt16)
    (got : List (Placed UInt8)) (bufLen : Nat) (state : State) : Prop where
  tracks : Tracks (.building tick dataId got) state.toState
  noStats : state.stats = none
  buffer : state.dataBuf = paste (firstBuf args) got
  bufLen : state.bufLen = bufLen

/-- A finished call. -/
structure Finished (args : AllocatedArgs) (tick : UInt64) (got : List (Placed UInt8))
    (bufLen : Nat) (outcome : AllocatedOutcome) : Prop where
  ret : outcome.ret = weight got
  tick : outcome.tick = tick
  buffer : outcome.dataBuf = paste (firstBuf args) got
  pBufLen : outcome.pBufLen = bufLen

/-- One packet of a build that is ready for it: the call goes out of bounds when
the packet ends beyond twice the capacity, and takes it otherwise. -/
theorem copyData_ready (allocates : ∀ size, args.allocates size = true)
    (wellFormed : packet.WellFormed) {ready : Complete.State} {dataBuf : Mem} (bufLen : Nat)
    (allocateBuf : Bool) (isReady : Ready packet.dataId got ready)
    (buffer : dataBuf = paste (firstBuf args) got) :
    (2 * bufLen < packet.limit →
      copyData args (carry ready dataBuf bufLen allocateBuf) (Complete.fields packet)
        packet.payload = .leave .outOfBounds) ∧
    (packet.limit ≤ 2 * bufLen →
      (packet.length.toNat ≤ weight (got ++ [packet.piece]) →
        ∃ outcome, copyData args (carry ready dataBuf bufLen allocateBuf)
            (Complete.fields packet) packet.payload = .leave (.returned outcome) ∧
          Finished args packet.tick (got ++ [packet.piece])
            (Doubling.grow bufLen packet.limit) outcome) ∧
      (¬ packet.length.toNat ≤ weight (got ++ [packet.piece]) →
        ∃ next, copyData args (carry ready dataBuf bufLen allocateBuf)
            (Complete.fields packet) packet.payload = .again next ∧
          Building args packet.tick packet.dataId (got ++ [packet.piece])
            (Doubling.grow bufLen packet.limit) next)) := by
  have short : packet.payload.length < 2 ^ 32 := by
    have fits := wellFormed.fits
    omega
  have added : weight (got ++ [packet.piece]) = weight got + packet.payload.length := by
    simp [Packet.piece]
  have read : (ready.afterCopy (Complete.fields packet) packet.payload).totalBytesRead =
      weight (got ++ [packet.piece]) := by
    rw [added, Nat.cast_add, ← isReady.count]
    rfl
  have written : dataBuf.write packet.offset.toNat packet.payload =
      paste (firstBuf args) (got ++ [packet.piece]) := by
    rw [paste_append, ← buffer]
    rfl
  constructor
  · intro beyond
    exact (copyData_outOfBounds_iff allocates short _).mpr beyond
  intro within
  rcases copyData_grow allocates wellFormed ready dataBuf bufLen allocateBuf with
    ⟨newBuf, grown⟩
  have room : (Complete.fields packet).offset.toNat + packet.payload.length ≤
      Doubling.grow bufLen packet.limit := Doubling.need_le_grow within
  rw [grown, writeData_eq ready room]
  have announced : (Complete.fields packet).length = packet.length := rfl
  rw [announced]
  constructor
  · intro complete
    have enough : (ready.afterCopy (Complete.fields packet) packet.payload).totalBytesRead ≥
        (packet.length.toNat : Int) := by
      rw [read]
      exact_mod_cast complete
    have noStats : (ready.afterCopy (Complete.fields packet) packet.payload).stats = none :=
      isReady.noStats
    rw [if_pos enough, finish, Complete.finish]
    simp only [carry, noStats]
    exact ⟨_, rfl, read, rfl, written, rfl⟩
  · intro incomplete
    have few : ¬ (ready.afterCopy (Complete.fields packet) packet.payload).totalBytesRead ≥
        (packet.length.toNat : Int) := by
      rw [read]
      exact_mod_cast incomplete
    rw [if_neg few]
    exact ⟨_, rfl, ⟨rfl, isReady.kept, rfl, isReady.source, read⟩, isReady.noStats, written, rfl⟩

/-- The packets of a build in the order in which they arrive, as requests for
room. -/
def needs (packets : List Packet) : List Nat :=
  packets.map Packet.limit

theorem round_recv (args : AllocatedArgs) (state : State) (wellFormed : packet.WellFormed) :
    round args state packet.recv = carryOut args state.dataBuf state.bufLen state.allocateBuf
      (Complete.fields packet) packet.payload
      (Complete.plan state.toState (Complete.fields packet) packet.payload) := by
  have long : reHeaderBytes ≤ packet.bytes.length := by
    rw [Complete.bytes_length]
    exact Nat.le_add_right _ _
  rcases Complete.arrived_bytes args.host wellFormed with ⟨header, payload⟩
  rw [Packet.recv, round_datagram state long, header, payload, handle_eq_self]

/-- The packets of a build are read to the last one as long as their requests
for room are met, and no longer. -/
theorem feed_ready (allocates : ∀ size, args.allocates size = true) {total : Nat}
    {rest : List Packet} (state : State) {ready : Complete.State}
    (uniform : Session.Uniform packet.tick packet.dataId total (packet :: rest))
    (wellFormed : ∀ one ∈ packet :: rest, one.WellFormed)
    (planned : Complete.plan state.toState (Complete.fields packet) packet.payload = .copy ready)
    (isReady : Ready packet.dataId got ready)
    (buffer : state.dataBuf = paste (firstBuf args) got)
    (missing : weight got + weight ((packet :: rest).map Packet.piece) = total) :
    (Doubling.Suffices state.bufLen (needs (packet :: rest)) →
      ∃ outcome, feed (round args) state ((packet :: rest).map Packet.recv) =
          .left (.returned outcome) [] ∧
        Finished args packet.tick (got ++ (packet :: rest).map Packet.piece)
          (Doubling.reached state.bufLen (needs (packet :: rest))) outcome) ∧
    (¬ Doubling.Suffices state.bufLen (needs (packet :: rest)) →
      ∃ unread, feed (round args) state ((packet :: rest).map Packet.recv) =
        .left .outOfBounds unread) := by
  induction rest generalizing packet got state ready with
  | nil =>
      have fits := wellFormed packet (by simp)
      have here := round_recv args state fits
      rw [planned, carryOut] at here
      obtain ⟨beyond, within⟩ :=
        copyData_ready allocates fits state.bufLen state.allocateBuf isReady buffer
      have complete : packet.length.toNat ≤ weight (got ++ [packet.piece]) := by
        rw [uniform.lengths packet (by simp), ← missing, weight_append]
        exact le_rfl
      constructor
      · intro enough
        obtain ⟨outcome, leaves, finished⟩ := (within enough.1).1 complete
        exact ⟨outcome, feed_cons_of_leave (here.trans leaves) [], finished⟩
      · intro short
        have long : 2 * state.bufLen < packet.limit := by
          by_contra met
          exact short ⟨not_lt.mp met, trivial⟩
        exact ⟨[], feed_cons_of_leave (here.trans (beyond long)) []⟩
  | cons next others inductionHypothesis =>
      have fits := wellFormed packet (by simp)
      have here := round_recv args state fits
      rw [planned, carryOut] at here
      obtain ⟨beyond, within⟩ :=
        copyData_ready allocates fits state.bufLen state.allocateBuf isReady buffer
      have added : weight (got ++ [packet.piece]) = weight got + packet.payload.length := by
        simp [Packet.piece]
      have later : weight (got ++ [packet.piece]) + weight ((next :: others).map Packet.piece) =
          total := by
        rw [added, ← missing]
        simp [Packet.piece, Nat.add_assoc]
      have incomplete : ¬ packet.length.toNat ≤ weight (got ++ [packet.piece]) := by
        have data := List.length_pos_iff.mpr (wellFormed next (by simp)).nonempty
        have counted : weight ((next :: others).map Packet.piece) =
            next.payload.length + weight (others.map Packet.piece) := by
          simp [Packet.piece]
        rw [uniform.lengths packet (by simp)]
        omega
      have sameTick : next.tick = packet.tick := uniform.ticks next (by simp)
      have sameSource : next.dataId = packet.dataId := uniform.sources next (by simp)
      have rest : Session.Uniform next.tick next.dataId total (next :: others) := by
        rw [sameTick, sameSource]
        exact uniform.subset (List.subset_cons_self _ _)
      by_cases met : packet.limit ≤ 2 * state.bufLen
      · obtain ⟨after, goesOn, building⟩ := (within met).2 incomplete
        have step := here.trans goesOn
        obtain ⟨ready, planned, isReady⟩ := plan_building next
          (by rw [sameTick, sameSource]; exact building.tracks) building.noStats
        have tail := inductionHypothesis after rest
          (fun one member => wellFormed one (List.mem_cons_of_mem _ member)) planned
          isReady building.buffer later
        rw [building.bufLen, sameTick] at tail
        rw [List.map_cons, feed_cons_of_again step]
        constructor
        · intro enough
          obtain ⟨outcome, leaves, finished⟩ := tail.1 enough.2
          rw [List.append_assoc] at finished
          exact ⟨outcome, leaves, finished⟩
        · intro short
          exact tail.2 fun enough => short ⟨met, enough⟩
      · constructor
        · intro enough
          exact absurd enough.1 met
        · intro _
          exact ⟨_, feed_cons_of_leave (here.trans (beyond (not_le.mp met))) _⟩

/-- All packets of a transmission in any order, the one at offset 0 first: the
call delivers the payload when the requests for room are met and goes out of
bounds when they are not. -/
theorem reassemble_iff (args : AllocatedArgs) (pointers : args.nullArgs = false)
    (allocates : ∀ size, args.allocates size = true) (noStats : args.stats = none)
    {transmission : Transmission} {tick : UInt64} {dataId : UInt16} {first : Packet}
    {others : List Packet} (order : (first :: others).Perm (transmission.packets tick dataId))
    (begins : first.offset = 0) (rest : List Recv) :
    (Doubling.Suffices (firstBufLen args) (needs (first :: others)) →
      ∃ outcome, getCompleteAllocatedBuffer args ((first :: others).map Packet.recv ++ rest) =
          .left (.returned outcome) rest ∧
        outcome.ret = transmission.payload.length ∧
        outcome.dataBuf.read 0 transmission.payload.length = transmission.payload ∧
        outcome.pBufLen = Doubling.reached (firstBufLen args) (needs (first :: others))) ∧
    (¬ Doubling.Suffices (firstBufLen args) (needs (first :: others)) →
      ∃ unread, getCompleteAllocatedBuffer args ((first :: others).map Packet.recv ++ rest) =
        .left .outOfBounds unread) := by
  have members : ∀ packet ∈ first :: others, packet ∈ transmission.packets tick dataId :=
    fun packet member => order.subset member
  have wellFormed : ∀ packet ∈ first :: others, packet.WellFormed :=
    fun packet member => Transmission.mem_wellFormed (members packet member)
  have pieces : ((first :: others).map Packet.piece).Perm (layout 0 transmission.chunks) := by
    rw [← Transmission.map_piece_packets transmission tick dataId]
    exact order.map _
  have total : weight ((first :: others).map Packet.piece) = transmission.payload.length := by
    rw [weight_perm pieces, weight_layout]
    rfl
  have uniform : Session.Uniform first.tick first.dataId transmission.payload.length
      (first :: others) := by
    rw [Transmission.mem_tick (members first (by simp)),
      Transmission.mem_dataId (members first (by simp))]
    exact Session.uniform_packets members
  have fresh : Tracks .fresh (start args).toState := ⟨rfl, rfl, rfl⟩
  obtain ⟨ready, planned, isReady⟩ :=
    plan_fresh first fresh noStats begins (wellFormed first (by simp)).nonempty
  obtain ⟨delivers, fails⟩ := feed_ready allocates (start args) uniform wellFormed planned isReady
    rfl (by simpa using total)
  rw [runs_eq allocates pointers]
  constructor
  · intro enough
    obtain ⟨outcome, leaves, finished⟩ := delivers enough
    refine ⟨outcome, feed_append_of_left leaves rest, ?_, ?_, finished.pBufLen⟩
    · rw [finished.ret, List.nil_append, total]
    · rw [finished.buffer, List.nil_append, Transmission.read_paste_packets _ pieces]
  · intro short
    obtain ⟨unread, leaves⟩ := fails short
    exact ⟨_, feed_append_of_left leaves rest⟩

/-- The packets of a transmission in any order ask for nothing beyond the end of
the payload, and one of them for that. -/
theorem needs_perm {transmission : Transmission} {tick : UInt64} {dataId : UInt16}
    {packets : List Packet} (order : packets.Perm (transmission.packets tick dataId)) :
    (∀ need ∈ needs packets, need ≤ transmission.payload.length) ∧
      (transmission.payload ≠ [] → transmission.payload.length ∈ needs packets) := by
  have inside : ∀ need ∈ needs packets, need ≤ transmission.payload.length := by
    intro need member
    rcases List.mem_map.mp member with ⟨packet, sent, rfl⟩
    exact Transmission.mem_end_le (order.subset sent)
  refine ⟨inside, ?_⟩
  intro nonempty
  have positive := List.length_pos_iff.mpr nonempty
  have covered : ∃ piece ∈ layout 0 transmission.chunks,
      piece.Covers (transmission.payload.length - 1) := by
    apply layout_covers 0 (Nat.zero_le _)
    rw [Nat.zero_add]
    exact Nat.sub_lt positive Nat.one_pos
  rcases covered with ⟨piece, placed, covers⟩
  have sent : transmission.packet tick dataId piece ∈ packets :=
    order.symm.subset (List.mem_map_of_mem placed)
  have last : (transmission.packet tick dataId piece).limit = piece.offset + piece.block.length := by
    have same : (transmission.packet tick dataId piece).piece = piece :=
      Transmission.piece_packet placed
    exact congrArg (fun piece => piece.offset + piece.block.length) same
  have atMost := inside _ (List.mem_map_of_mem sent)
  have atLeast := covers.2
  have reaches : (transmission.packet tick dataId piece).limit = transmission.payload.length := by
    omega
  exact reaches ▸ List.mem_map_of_mem sent

/-- Blocks of at most `step` values, laid out one after the other, end at most
`step` values after each other. -/
theorem chain_layout {chunks : List (List UInt8)} {step : Nat}
    (sized : ∀ chunk ∈ chunks, chunk.length ≤ step) (start : Nat) :
    List.IsChain (fun before after => after ≤ before + step)
      (start :: (layout start chunks).map fun piece => piece.offset + piece.block.length) := by
  induction chunks generalizing start with
  | nil => exact List.isChain_singleton _
  | cons chunk rest inductionHypothesis =>
      have rise : start + chunk.length ≤ start + step :=
        Nat.add_le_add_left (sized chunk (by simp)) start
      have tail := inductionHypothesis (fun one member => sized one (by simp [member]))
        (start + chunk.length)
      exact List.isChain_cons_cons.mpr ⟨rise, tail⟩

theorem needs_packets (transmission : Transmission) (tick : UInt64) (dataId : UInt16) :
    needs (transmission.packets tick dataId) =
      (layout 0 transmission.chunks).map fun piece => piece.offset + piece.block.length := by
  rw [← Transmission.map_piece_packets transmission tick dataId, List.map_map]
  rfl

theorem maxEjfatMtu_le_firstBufLen (args : AllocatedArgs) : maxEjfatMtu ≤ firstBufLen args := by
  unfold firstBufLen maxEjfatMtu
  split_ifs <;> omega

end Allocated

/-! ### The whole call -/

/-- Where the data of an arrived datagram ends. -/
def arrivedLimit (host : ByteOrder) (bytes : List UInt8) : Nat :=
  (Complete.arrivedHeader host bytes).offset.toNat + (Complete.arrivedPayload bytes).length

theorem arrivedLimit_bytes (host : ByteOrder) {packet : Packet}
    (wellFormed : packet.WellFormed) : arrivedLimit host packet.bytes = packet.limit := by
  rcases Complete.arrived_bytes host wellFormed with ⟨header, payload⟩
  rw [arrivedLimit, header, payload]
  rfl

theorem map_arrivedLimit (host : ByteOrder) {datagrams : List (List UInt8)}
    {packets : List Packet} (wellFormed : ∀ packet ∈ packets, packet.WellFormed)
    (bytes : datagrams.map (stripped false) = packets.map Packet.bytes) :
    (datagrams.map (stripped false)).map (arrivedLimit host) = Allocated.needs packets := by
  rw [bytes, List.map_map]
  exact List.map_congr_left fun packet member => arrivedLimit_bytes host (wellFormed packet member)

/-- The capacity is the smallest doubling of the first one that holds a number
of bytes. -/
structure SmallestDoubling (first bytes capacity : Nat) : Prop where
  doubled : ∃ times, capacity = 2 ^ times * first
  holds : bytes ≤ capacity
  least : capacity = first ∨ capacity < 2 * bytes

theorem smallestDoubling_reached {transmission : Transmission} {tick : UInt64} {dataId : UInt16}
    {packets : List Packet} {first : Nat}
    (order : packets.Perm (transmission.packets tick dataId)) (nonempty : transmission.payload ≠ [])
    (met : Doubling.Suffices first (Allocated.needs packets)) :
    SmallestDoubling first transmission.payload.length
      (Doubling.reached first (Allocated.needs packets)) := by
  obtain ⟨inside, reaches⟩ := Allocated.needs_perm order
  obtain ⟨doubled, holds, least⟩ := Doubling.least_reached met
  refine ⟨doubled, holds _ (reaches nonempty), ?_⟩
  rcases least with same | ⟨need, member, large⟩
  · exact .inl same
  · have atMost := inside need member
    exact .inr (by omega)

/-- A call with a buffer of its own is ready to read. -/
structure Reads (listener : Listener) (receive : GetBufferArgs) (userBuf : Option Mem)
    (bufLen : Nat) : Prop where
  userBuf : receive.userBuf = some userBuf
  userBufLen : receive.userBufLen = some bufLen
  allocates : receive.noCopy = false ∧ ∀ size, listener.allocates size = true
  opens : listener.opens receive.useIPv6 = true

/-- The packets of a transmission in some order, read into a buffer of its own. -/
theorem getBuffer_packets {listener : Listener} {receive : GetBufferArgs}
    {userBuf : Option Mem} {bufLen : Nat} (reads : Reads listener receive userBuf bufLen)
    {transmission : Transmission} {tick : UInt64} {dataId : UInt16} {first : Packet}
    {others : List Packet} (order : (first :: others).Perm (transmission.packets tick dataId))
    (begins : first.offset = 0) (nonempty : transmission.payload ≠ []) (rest : List Recv)
    (arrives : receive.stream listener = (first :: others).map Packet.recv ++ rest) :
    (Doubling.Suffices (Allocated.firstBufLen (receive.allocated listener userBuf bufLen))
        (Allocated.needs (first :: others)) →
      ∃ after capacity newBuf, getBuffer listener receive =
          .left (.returned ⟨0, some after, some capacity, newBuf⟩) rest ∧
        after.read 0 transmission.payload.length = transmission.payload ∧
        SmallestDoubling (Allocated.firstBufLen (receive.allocated listener userBuf bufLen))
          transmission.payload.length capacity) ∧
    (¬ Doubling.Suffices (Allocated.firstBufLen (receive.allocated listener userBuf bufLen))
        (Allocated.needs (first :: others)) →
      ∃ unread, getBuffer listener receive = .left .outOfBounds unread) := by
  obtain ⟨delivers, fails⟩ := Allocated.reassemble_iff
    (receive.allocated listener userBuf bufLen) rfl reads.allocates.2 rfl order begins rest
  rw [← arrives] at delivers fails
  constructor
  · intro enough
    obtain ⟨outcome, ends, ret, data, capacity⟩ := delivers enough
    have success : ¬ outcome.ret < 0 := by omega
    refine ⟨outcome.dataBuf, outcome.pBufLen, outcome.newBuf, ?_, data, ?_⟩
    · simp [getBuffer, reads.userBuf, reads.userBufLen, reads.opens, reads.allocates.1, ends,
        passOn, success]
    · rw [capacity]
      exact smallestDoubling_reached order nonempty enough
  · intro short
    obtain ⟨unread, ends⟩ := fails short
    have ended : getBuffer listener receive = .left .outOfBounds unread := by
      simp [getBuffer, reads.userBuf, reads.userBufLen, reads.opens, reads.allocates.1, ends]
    exact ⟨unread, ended⟩

theorem data_ne_nil {network : Network} {send : SendBufferArgs}
    (served : SendBuffer.Served network send) : send.data ≠ [] := by
  have nonempty := served.nonempty
  apply List.length_pos_iff.mp
  rw [SendBufferArgs.data, Memory.read_length]
  exact nonempty

/-- With a buffer of its own, `getBuffer` restores what `sendBuffer` sent, of the
orders of arrival that begin with the datagram at offset 0, exactly for those in
which no datagram ends beyond twice the capacity of its moment; in the others it
writes out of bounds. When it succeeds, the capacity is the smallest doubling of
the first one that holds the data, whatever the order after the first datagram. -/
theorem getBuffer_allocates_iff (network : Network) (send : SendBufferArgs)
    (served : SendBuffer.Served network send) (datagrams : List (List UInt8))
    (sent : SendBuffer.Sent network send datagrams) (listener : Listener)
    (receive : GetBufferArgs) (userBuf : Option Mem) (bufLen : Nat)
    (reads : Reads listener receive userBuf bufLen)
    (first : List UInt8) (others : List (List UInt8)) (rest : List Recv)
    (order : (first :: others).Perm datagrams)
    (begins : arrivedOffset receive.machine (stripped false first) = 0)
    (arrives : receive.stream listener = (first :: others).map (delivered false) ++ rest) :
    (Doubling.Suffices (Allocated.firstBufLen (receive.allocated listener userBuf bufLen))
        (((first :: others).map (stripped false)).map (arrivedLimit receive.machine)) →
      ∃ after capacity newBuf, getBuffer listener receive =
          .left (.returned ⟨0, some after, some capacity, newBuf⟩) rest ∧
        after.read 0 send.data.length = send.data ∧
        SmallestDoubling (Allocated.firstBufLen (receive.allocated listener userBuf bufLen))
          send.data.length capacity) ∧
    (¬ Doubling.Suffices (Allocated.firstBufLen (receive.allocated listener userBuf bufLen))
        (((first :: others).map (stripped false)).map (arrivedLimit receive.machine)) →
      ∃ unread, getBuffer listener receive = .left .outOfBounds unread) := by
  rcases sent_transmission served sent with ⟨transmission, payload, -, wire⟩
  rcases arrive_packets receive.machine wire (fun packet => Transmission.mem_wellFormed) order
    begins with ⟨packet, later, same, starts, bytes⟩
  have wellFormed : ∀ one ∈ packet :: later, one.WellFormed :=
    fun one member => Transmission.mem_wellFormed (same.subset member)
  rw [delivered_packets bytes] at arrives
  have whole := getBuffer_packets reads same starts (payload ▸ data_ne_nil served) rest arrives
  rwa [← map_arrivedLimit receive.machine wellFormed bytes, payload] at whole

/-- A call for which 100000 bytes are allocated. -/
def sampleAllocating : GetBufferArgs :=
  { sampleGetBuffer with
    userBuf := some none
    userBufLen := some 0
    noCopy := false }

theorem sampleAllocating_reads : Reads sampleListener sampleAllocating none 0 :=
  ⟨rfl, rfl, ⟨rfl, fun _ => rfl⟩, rfl⟩

theorem getBuffer_allocates_iff_sample :
    ∃ after capacity newBuf, getBuffer sampleListener sampleAllocating =
        .left (.returned ⟨0, some after, some capacity, newBuf⟩) [] ∧
      after.read 0 sampleThree.data.length = sampleThree.data ∧
      SmallestDoubling 100000 sampleThree.data.length capacity :=
  (getBuffer_allocates_iff SendBuffer.sampleNetwork sampleThree sampleThree_served _
    sampleThree_sent sampleListener sampleAllocating none 0 sampleAllocating_reads _ _ []
    (.cons _ (.swap _ _ _)) (by decide) rfl).1 (by decide +kernel)

/-- In the order of sending the requests for room are met whatever the size of
the buffer, when a payload is no longer than the largest MTU. -/
theorem getBuffer_inOrder (network : Network) (send : SendBufferArgs)
    (served : SendBuffer.Served network send)
    (jumbo : send.maxUdpPayload network ≤ (maxEjfatMtu : Int)) (datagrams : List (List UInt8))
    (sent : SendBuffer.Sent network send datagrams) (listener : Listener)
    (receive : GetBufferArgs) (userBuf : Option Mem) (bufLen : Nat)
    (reads : Reads listener receive userBuf bufLen) (rest : List Recv)
    (arrives : receive.stream listener = datagrams.map (delivered false) ++ rest) :
    ∃ after capacity newBuf, getBuffer listener receive =
        .left (.returned ⟨0, some after, some capacity, newBuf⟩) rest ∧
      after.read 0 send.data.length = send.data ∧
      SmallestDoubling (Allocated.firstBufLen (receive.allocated listener userBuf bufLen))
        send.data.length capacity := by
  rcases sent_transmission served sent with ⟨transmission, payload, sized, wire⟩
  have met : Doubling.Suffices
      (Allocated.firstBufLen (receive.allocated listener userBuf bufLen))
      (Allocated.needs (transmission.packets send.tick send.dataId)) := by
    rw [Allocated.needs_packets]
    refine Doubling.suffices_of_steps (Nat.zero_le _)
      (Allocated.maxEjfatMtu_le_firstBufLen _) (Allocated.chain_layout ?_ 0)
    intro chunk member
    have size := sized chunk member
    omega
  rw [delivered_packets wire] at arrives
  obtain ⟨first, others, packets⟩ := List.exists_cons_of_ne_nil
    (Transmission.packets_ne_nil : transmission.packets send.tick send.dataId ≠ [])
  have begins : first.offset = 0 := by
    obtain ⟨chunk, chunks, cut⟩ := List.exists_cons_of_ne_nil transmission.hasChunks
    rw [Transmission.packets, cut, layout, List.map_cons] at packets
    rw [← (List.cons.inj packets).1]
    rfl
  rw [packets] at arrives met
  have order : (first :: others).Perm (transmission.packets send.tick send.dataId) := by
    rw [packets]
  have whole := (getBuffer_packets reads order begins (payload ▸ data_ne_nil served) rest
    arrives).1 met
  rwa [payload] at whole

/-- The same datagrams in their own order. -/
def sampleInOrder : Listener :=
  { sampleListener with
    receives := fun _ _ _ => sampleThreeOutcome.sent.map (delivered false) ++ [] }

theorem sampleInOrder_reads : Reads sampleInOrder sampleAllocating none 0 :=
  ⟨rfl, rfl, ⟨rfl, fun _ => rfl⟩, rfl⟩

theorem getBuffer_inOrder_sample :
    ∃ after capacity newBuf, getBuffer sampleInOrder sampleAllocating =
        .left (.returned ⟨0, some after, some capacity, newBuf⟩) [] ∧
      after.read 0 sampleThree.data.length = sampleThree.data ∧
      SmallestDoubling 100000 sampleThree.data.length capacity :=
  getBuffer_inOrder SendBuffer.sampleNetwork sampleThree sampleThree_served (by decide) _
    sampleThree_sent sampleInOrder sampleAllocating none 0 sampleInOrder_reads [] rfl

end Dift.Assemble
