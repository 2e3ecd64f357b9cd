import Dift.Foundation.Tiling
import Dift.Assemble.Complete

/-!
Owns the abstract receiver behind `getCompletePacketizedBuffer`. A session has
seen nothing, throws a tick away, or builds the buffer of one tick and source
from the pieces it has got; it forgets counters, guesses and statistics. The
refinement theorem says that the receiving loop follows it packet by packet:
the loop's three flags are the phase, its byte count is the weight of the
pieces, and its buffer is the initial memory with every piece pasted in.
-/

namespace Dift.Assemble

open Dift.Foundation
open Dift.Wire

/-- A version 2 packet: the header fields and the payload. -/
structure Packet where
  version : Int
  reserved : Int
  tick : UInt64
  dataId : UInt16
  offset : UInt32
  length : UInt32
  payload : List UInt8
deriving DecidableEq, Repr

namespace Packet

/-- Where the payload belongs. -/
def piece (packet : Packet) : Placed UInt8 := ⟨packet.offset.toNat, packet.payload⟩

/-- The packet as it arrives, without a load-balancer header. -/
def bytes (packet : Packet) : List UInt8 :=
  reHeader packet.offset packet.length packet.tick packet.version packet.dataId packet.reserved ++
    packet.payload

/-- The packet as a `recvfrom` result. -/
def recv (packet : Packet) : Recv :=
  .datagram packet.bytes

/-- The version fits its four bits and there is some data, but no more than
one datagram holds. -/
structure WellFormed (packet : Packet) : Prop where
  versionNonneg : 0 ≤ packet.version
  versionLt : packet.version < 16
  nonempty : packet.payload ≠ []
  fits : packet.payload.length ≤ 65500

end Packet

/-! ### The abstract machine -/

/-- What a session is doing. -/
inductive Phase where
  | fresh
  | dumping (tick : UInt64)
  | building (tick : UInt64) (dataId : UInt16) (got : List (Placed UInt8))
deriving DecidableEq, Repr

/-- A session with the pieces of builds it has given up. -/
structure Session where
  earlier : List (Placed UInt8)
  phase : Phase
deriving DecidableEq, Repr

/-- How a session ends. -/
inductive Verdict where
  | complete (tick : UInt64) (dataId : UInt16) (earlier got : List (Placed UInt8))
  | tooSmall
deriving DecidableEq, Repr

namespace Session

def initial : Session := ⟨[], .fresh⟩

/-- Every piece copied into the buffer so far, in order. -/
def written (session : Session) : List (Placed UInt8) :=
  match session.phase with
  | .building _ _ got => session.earlier ++ got
  | _ => session.earlier

/-- Take a packet of the tick and source being built. -/
def accept (bufLen : Nat) (earlier got : List (Placed UInt8)) (packet : Packet) :
    Round Session Verdict :=
  if packet.offset.toNat + packet.payload.length > bufLen then .leave .tooSmall
  else if packet.length.toNat ≤ weight (got ++ [packet.piece]) then
    .leave (.complete packet.tick packet.dataId earlier (got ++ [packet.piece]))
  else .again ⟨earlier, .building packet.tick packet.dataId (got ++ [packet.piece])⟩

/-- Take a packet of a tick that is not being built: a buffer starts with the
packet at offset 0 or not at all. -/
def change (bufLen : Nat) (earlier : List (Placed UInt8)) (packet : Packet) :
    Round Session Verdict :=
  if packet.offset ≠ 0 then .again ⟨earlier, .dumping packet.tick⟩
  else accept bufLen earlier [] packet

/-- One packet. A fresh session takes tick `UINT_MAX` at any offset. -/
def step (bufLen : Nat) (session : Session) (packet : Packet) : Round Session Verdict :=
  match session.phase with
  | .fresh =>
      if packet.tick = Complete.uintMax then accept bufLen session.earlier [] packet
      else change bufLen session.earlier packet
  | .dumping tick =>
      if packet.tick = tick then .again session else change bufLen session.earlier packet
  | .building tick dataId got =>
      if packet.dataId ≠ dataId then .again session
      else if packet.tick = tick then accept bufLen session.earlier got packet
      else change bufLen (session.earlier ++ got) packet

end Session

/-! ### The loop follows the machine -/

namespace Complete

/-- The loop's variables agree with a phase. -/
def Tracks (phase : Phase) (state : State) : Prop :=
  match phase with
  | .fresh => state.veryFirstRead = true ∧ state.dumpTick = false ∧ state.prevTick = uintMax
  | .dumping tick => state.veryFirstRead = true ∧ state.dumpTick = true ∧ state.prevTick = tick
  | .building tick dataId got =>
      state.veryFirstRead = false ∧ state.dumpTick = false ∧ state.prevTick = tick ∧
        state.srcId = dataId ∧ state.totalBytesRead = weight got

/-- The loop's state represents a session. -/
structure Represents (args : CompleteArgs) (state : State) (session : Session) : Prop where
  tracks : Tracks session.phase state
  buffer : state.dataBuf = paste args.dataBuf session.written
  stats : state.stats.isSome = args.stats.isSome

/-- A finished call delivers the pieces of a verdict. -/
structure Delivers (args : CompleteArgs) (tick : UInt64) (dataId : UInt16)
    (earlier got : List (Placed UInt8)) (outcome : Outcome) : Prop where
  ret : outcome.ret = weight got
  tick : outcome.tick = tick
  dataId : outcome.dataId = if args.wantsDataId then some dataId else none
  buffer : outcome.dataBuf = paste args.dataBuf (earlier ++ got)

/-- A completed buffer makes the call divide by zero: statistics are kept, a
tick is expected and the prescale is zero. -/
def Divides (args : CompleteArgs) : Prop :=
  args.stats.isSome ∧ args.tick ≠ 0xFFFFFFFFFFFFFFFF ∧ args.tickPrescale = 0

/-- The end of the loop agrees with a verdict. -/
def Concludes (args : CompleteArgs) (exit : Exit) : Verdict → Prop
  | .complete tick dataId earlier got =>
      (¬ Divides args ∧
        ∃ outcome, exit = .returned outcome ∧ Delivers args tick dataId earlier got outcome) ∨
      (Divides args ∧ exit = .divideByZero)
  | .tooSmall => ∃ outcome, exit = .returned outcome ∧ outcome.ret = bufTooSmall

/-- The header fields of a packet as the parser returns them. -/
def fields (packet : Packet) : ReFields :=
  ⟨packet.version.toNat, packet.dataId, packet.offset, packet.length, packet.tick⟩

variable {args : CompleteArgs}

private theorem finish_concludes {state : State} {header : ReFields}
    (earlier got : List (Placed UInt8)) (count : state.totalBytesRead = weight got)
    (buffer : state.dataBuf = paste args.dataBuf (earlier ++ got))
    (stats : state.stats.isSome = args.stats.isSome) :
    Concludes args (finish args state header)
      (.complete header.tick header.dataId earlier got) := by
  unfold finish
  cases given : state.stats with
  | none =>
      have absent : ¬ Divides args := fun divides => by
        rw [given, Option.isSome_none] at stats
        exact absurd divides.1 (by simp [← stats])
      exact .inl ⟨absent, _, rfl, ⟨count, rfl, rfl, buffer⟩⟩
  | some before =>
      have present : args.stats.isSome = true := by rw [← stats, given]; rfl
      by_cases expects : args.tick ≠ 0xFFFFFFFFFFFFFFFF
      · by_cases zero : args.tickPrescale = 0
        · simp only [finishStats, if_pos expects, if_pos zero]
          exact .inr ⟨⟨present, expects, zero⟩, rfl⟩
        · simp only [finishStats, if_pos expects, if_neg zero]
          exact .inl ⟨fun divides => zero divides.2.2, _, rfl, ⟨count, rfl, rfl, buffer⟩⟩
      · simp only [finishStats, if_neg expects]
        exact .inl ⟨fun divides => expects divides.2.1, _, rfl, ⟨count, rfl, rfl, buffer⟩⟩

private theorem copyData_matches {state : State} {packet : Packet}
    {earlier got : List (Placed UInt8)} (kept : state.dumpTick = false)
    (source : state.srcId = packet.dataId) (count : state.totalBytesRead = weight got)
    (buffer : state.dataBuf = paste args.dataBuf (earlier ++ got))
    (stats : state.stats.isSome = args.stats.isSome) :
    Round.Match (Represents args) (Concludes args)
      (copyData args state (fields packet) packet.payload)
      (Session.accept args.bufLen earlier got packet) := by
  have newCount : state.totalBytesRead + packet.payload.length =
      ((weight (got ++ [packet.piece]) : Nat) : Int) := by
    simp [count, Packet.piece]
  have newBuffer : state.dataBuf.write packet.offset.toNat packet.payload =
      paste args.dataBuf (earlier ++ (got ++ [packet.piece])) := by
    rw [buffer, ← List.append_assoc, paste_append _ (earlier ++ got)]
    rfl
  simp only [copyData, Session.accept, fields, newCount, ge_iff_le, Nat.cast_le]
  split_ifs with tooBig complete
  · exact .leave ⟨_, rfl, rfl⟩
  · exact .leave (finish_concludes earlier (got ++ [packet.piece]) rfl newBuffer stats)
  · exact .again ⟨⟨rfl, kept, rfl, source, rfl⟩, newBuffer, stats⟩

private theorem sortTick_matches_change {state : State} {packet : Packet}
    {prevLength prevTotalPkts : UInt32} {earlier : List (Placed UInt8)}
    (newTick : packet.tick ≠ state.prevTick) (source : state.srcId = packet.dataId)
    (count : state.veryFirstRead = true → state.totalBytesRead = 0)
    (buffer : state.dataBuf = paste args.dataBuf earlier)
    (stats : state.stats.isSome = args.stats.isSome) :
    Round.Match (Represents args) (Concludes args)
      (sortTick args state prevLength prevTotalPkts (fields packet) packet.payload)
      (Session.change args.bufLen earlier packet) := by
  have pasted : state.dataBuf = paste args.dataBuf (earlier ++ []) := by simpa using buffer
  unfold sortTick Session.change
  rw [if_pos (show (fields packet).tick ≠ state.prevTick from newTick)]
  by_cases missing : packet.offset ≠ 0
  · rw [if_pos (show (fields packet).offset ≠ 0 from missing), if_pos missing]
    exact .again ⟨⟨rfl, rfl, rfl⟩, buffer, stats⟩
  · rw [if_neg (show ¬ (fields packet).offset ≠ 0 from missing), if_neg missing]
    split_ifs with first
    · exact copyData_matches rfl source (count first) pasted stats
    · exact copyData_matches rfl rfl rfl pasted stats

/-- One packet with data moves the loop as it moves the session. -/
theorem handle_matches {state : State} {session : Session} {packet : Packet}
    (nonempty : packet.payload ≠ []) (represents : Represents args state session) :
    Round.Match (Represents args) (Concludes args)
      (handle args state (fields packet) packet.payload)
      (Session.step args.bufLen session packet) := by
  have hasData : ¬ packet.payload.length = 0 := by simpa using nonempty
  rcases session with ⟨earlier, phase⟩
  rcases represents with ⟨tracks, buffer, stats⟩
  unfold handle Session.step
  cases phase with
  | fresh =>
      rcases tracks with ⟨first, kept, noTick⟩
      rw [if_pos first, if_neg hasData]
      by_cases sentinel : packet.tick = uintMax
      · have sameTick : ¬ (fields packet).tick ≠ state.prevTick := by
          simp [fields, sentinel, noTick]
        simp only [sentinel, if_true, sortTick, if_neg sameTick, kept, Bool.false_eq_true, if_false]
        exact copyData_matches rfl rfl rfl (by simpa [Session.written] using buffer) stats
      · simp only [if_neg sentinel]
        exact sortTick_matches_change (by rwa [noTick]) rfl (fun _ => rfl) buffer stats
  | dumping tick =>
      rcases tracks with ⟨first, dumped, sameTick⟩
      rw [if_pos first, if_neg hasData]
      by_cases again : packet.tick = tick
      · have noChange : ¬ (fields packet).tick ≠ state.prevTick := by
          simp [fields, again, sameTick]
        simp only [again, if_true, sortTick, if_neg noChange, dumped]
        exact .again ⟨⟨rfl, rfl, sameTick⟩, buffer, stats⟩
      · simp only [if_neg again]
        exact sortTick_matches_change (by rwa [sameTick]) rfl (fun _ => rfl) buffer stats
  | building tick dataId got =>
      rcases tracks with ⟨notFirst, kept, sameTick, source, count⟩
      rw [if_neg (by simp [notFirst])]
      by_cases foreign : packet.dataId ≠ dataId
      · rw [if_pos (by simpa [fields, source] using foreign)]
        simp only [if_pos foreign]
        exact .again ⟨⟨notFirst, kept, sameTick, source, count⟩, buffer, by simpa using stats⟩
      · rw [if_neg (by simpa [fields, source] using foreign)]
        simp only [if_neg foreign]
        have known : state.srcId = packet.dataId := by
          rw [source]
          exact (not_not.mp foreign).symm
        by_cases again : packet.tick = tick
        · have noChange : ¬ (fields packet).tick ≠ state.prevTick := by
            simp [fields, again, sameTick]
          simp only [again, if_true, sortTick, if_neg noChange, kept, Bool.false_eq_true, if_false]
          exact copyData_matches rfl known count buffer stats
        · simp only [if_neg again]
          exact sortTick_matches_change (by rwa [sameTick]) known (by simp [notFirst]) buffer stats

/-! ### Datagrams -/

theorem bytes_length (packet : Packet) :
    packet.bytes.length = reHeaderBytes + packet.payload.length := by
  simp [Packet.bytes]

/-- A packet that fits the packet array arrives as its fields and payload. -/
theorem arrived_bytes {packet : Packet} (host : ByteOrder) (wellFormed : packet.WellFormed) :
    arrivedHeader host packet.bytes = fields packet ∧
      arrivedPayload packet.bytes = packet.payload := by
  have total := bytes_length packet
  have whole : packet.bytes.take 65536 = packet.bytes := by
    have fits := wellFormed.fits
    apply List.take_of_length_le
    rw [total, reHeaderBytes]
    omega
  have rest : packet.bytes.length - reHeaderBytes = packet.payload.length := by omega
  obtain ⟨headerHeld, payloadHeld⟩ :=
    Memory.read_split (Memory.read_write_self (fun _ => 0) 0 packet.bytes)
  rw [reHeader_length] at headerHeld payloadHeld
  rw [Nat.zero_add] at payloadHeld
  simp only [arrivedHeader, arrivedPayload, received, whole, rest]
  rw [parseReHeader_reHeader headerHeld wellFormed.versionNonneg wellFormed.versionLt, payloadHeld]
  exact ⟨rfl, rfl⟩

theorem round_recv {packet : Packet} (state : State) (wellFormed : packet.WellFormed) :
    round args state packet.recv = handle args state (fields packet) packet.payload := by
  have long : reHeaderBytes ≤ packet.bytes.length := by
    rw [bytes_length]
    exact Nat.le_add_right _ _
  rcases arrived_bytes args.host wellFormed with ⟨header, payload⟩
  rw [Packet.recv, round_datagram args state long, header, payload]

/-- The loop refines the session machine on every stream of packets. -/
theorem feed_refines {packets : List Packet}
    (wellFormed : ∀ packet ∈ packets, packet.WellFormed) :
    Fed.Match Packet.recv (Represents args) (Concludes args)
      (getCompletePacketizedBuffer args (packets.map Packet.recv))
      (feed (Session.step args.bufLen) Session.initial packets) := by
  refine feed_lockstep _ _ _ ?_ ⟨⟨rfl, rfl, rfl⟩, rfl, rfl⟩
  intro packet member state session represents
  rw [round_recv state (wellFormed packet member)]
  exact handle_matches (wellFormed packet member).nonempty represents

/-- A return value that is not negative comes from a completed session. -/
theorem completed_of_returned {packets : List Packet}
    (wellFormed : ∀ packet ∈ packets, packet.WellFormed) {outcome : Outcome} {rest : List Recv}
    (returns : getCompletePacketizedBuffer args (packets.map Packet.recv) =
      .left (.returned outcome) rest)
    (success : 0 ≤ outcome.ret) :
    ∃ tick dataId earlier got unread,
      feed (Session.step args.bufLen) Session.initial packets =
        .left (.complete tick dataId earlier got) unread ∧
      rest = unread.map Packet.recv ∧ ¬ Divides args ∧
      Delivers args tick dataId earlier got outcome := by
  have refines : Fed.Match Packet.recv (Represents args) (Concludes args)
      (getCompletePacketizedBuffer args (packets.map Packet.recv))
      (feed (Session.step args.bufLen) Session.initial packets) := feed_refines wellFormed
  rw [returns] at refines
  generalize run : feed (Session.step args.bufLen) Session.initial packets = fed at refines
  cases refines with
  | left out unread =>
      next verdict =>
        cases verdict with
        | complete tick dataId earlier got =>
            rcases out with ⟨whole, final, same, delivers⟩ | ⟨-, divided⟩
            · cases same
              exact ⟨tick, dataId, earlier, got, unread, rfl, rfl, whole, delivers⟩
            · cases divided
        | tooSmall =>
            rcases out with ⟨final, same, code⟩
            cases same
            rw [code, bufTooSmall] at success
            omega

/-- A completed session makes the call return, unless it divides by zero. -/
theorem returned_of_completed {packets : List Packet}
    (wellFormed : ∀ packet ∈ packets, packet.WellFormed) (whole : ¬ Divides args)
    {tick : UInt64} {dataId : UInt16} {earlier got : List (Placed UInt8)} {unread : List Packet}
    (run : feed (Session.step args.bufLen) Session.initial packets =
      .left (.complete tick dataId earlier got) unread) :
    ∃ outcome, getCompletePacketizedBuffer args (packets.map Packet.recv) =
        .left (.returned outcome) (unread.map Packet.recv) ∧
      Delivers args tick dataId earlier got outcome := by
  have refines : Fed.Match Packet.recv (Represents args) (Concludes args)
      (getCompletePacketizedBuffer args (packets.map Packet.recv))
      (feed (Session.step args.bufLen) Session.initial packets) := feed_refines wellFormed
  rw [run] at refines
  generalize getCompletePacketizedBuffer args (packets.map Packet.recv) = fed at refines
  cases refines with
  | left out =>
      rcases out with ⟨-, outcome, rfl, delivers⟩ | ⟨divides, -⟩
      · exact ⟨outcome, rfl, delivers⟩
      · exact absurd divides whole

end Complete

end Dift.Assemble
