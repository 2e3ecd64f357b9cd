import Dift.Assemble.Packetized
import Dift.Assemble.Transmission

/-!
Owns the staged reading of one payload: the caller's loop that gives
`getPacketizedBuffer` one buffer after the other and feeds the source, the tick
and the offset back, and the theorem that a payload sent in order in packets of
up to a jumbo frame arrives in pieces, whatever the buffers' sizes. What a call
has read is a run of chunks; the invariant places it behind the chunks of the
calls before.
-/

namespace Dift.Assemble

open Dift.Foundation
open Dift.Wire

/-! ### The caller -/

/-- A buffer for one call, and what `*packetCount` and the local variable
without initial value hold in it. -/
structure StageBuffer where
  dataBuf : Mem
  bufLen : UInt64
  packetCount : UInt32
  packetTick : UInt64

/-- What a caller passes from one call to the next. -/
structure Carried where
  veryFirstRead : Bool
  srcId : UInt16
  tick : UInt64
  offset : UInt32

def Carried.args (carried : Carried) (host : ByteOrder) (buffer : StageBuffer) :
    PacketizedArgs where
  host := host
  dataBuf := buffer.dataBuf
  bufLen := buffer.bufLen
  veryFirstRead := carried.veryFirstRead
  last := false
  srcId := carried.srcId
  tick := carried.tick
  offset := carried.offset
  packetCount := buffer.packetCount
  packetTick := buffer.packetTick

/-- One call with what there was to receive and what it left behind. -/
structure StagedCall where
  args : PacketizedArgs
  socket : List Recv
  outcome : PacketizedOutcome

/-- Call until an error or the last packet, at most `fuel` times; `none` when
that is not enough or when a call waits for input. -/
def readStages (host : ByteOrder) (buffers : Nat → StageBuffer) :
    Nat → Nat → Carried → List Recv → Option (List StagedCall)
  | 0, _, _, _ => none
  | fuel + 1, index, carried, socket =>
      let args := carried.args host (buffers index)
      match getPacketizedBuffer args socket with
      | .waiting _ => none
      | .left outcome rest =>
          if outcome.ret < 0 ∨ outcome.last = true then some [⟨args, socket, outcome⟩]
          else
            (readStages host buffers fuel (index + 1)
              ⟨false, outcome.srcId, outcome.tick, outcome.offset⟩ rest).map
              (⟨args, socket, outcome⟩ :: ·)

theorem readStages_end {host : ByteOrder} {buffers : Nat → StageBuffer} {index : Nat}
    {carried : Carried} {socket rest : List Recv} {outcome : PacketizedOutcome}
    (call : getPacketizedBuffer (carried.args host (buffers index)) socket = .left outcome rest)
    (ended : outcome.ret < 0 ∨ outcome.last = true) (fuel : Nat) :
    readStages host buffers (fuel + 1) index carried socket =
      some [⟨carried.args host (buffers index), socket, outcome⟩] := by
  simp only [readStages, call, if_pos ended]

theorem readStages_again {host : ByteOrder} {buffers : Nat → StageBuffer} {index : Nat}
    {carried : Carried} {socket rest : List Recv} {outcome : PacketizedOutcome}
    (call : getPacketizedBuffer (carried.args host (buffers index)) socket = .left outcome rest)
    (goesOn : ¬ (outcome.ret < 0 ∨ outcome.last = true)) (fuel : Nat) :
    readStages host buffers (fuel + 1) index carried socket =
      (readStages host buffers fuel (index + 1)
        ⟨false, outcome.srcId, outcome.tick, outcome.offset⟩ rest).map
        (⟨carried.args host (buffers index), socket, outcome⟩ :: ·) := by
  simp only [readStages, call, if_neg goesOn]

namespace Packetized

variable {args : PacketizedArgs} {transmission : Transmission} {tick : UInt64} {dataId : UInt16}

/-- The packets of some chunks, the first of them at `offset`. -/
def packetsFrom (transmission : Transmission) (tick : UInt64) (dataId : UInt16) (offset : Nat)
    (chunks : List (List UInt8)) : List Recv :=
  (layout offset chunks).map fun piece => (transmission.packet tick dataId piece).recv

/-! ### One call -/

/-- The arguments of a call that follows calls which have read some chunks. -/
structure Ready (args : PacketizedArgs) (tick : UInt64) (dataId : UInt16)
    (before : List (List UInt8)) : Prop where
  offset : args.offset = UInt32.ofNat before.flatten.length
  first : args.veryFirstRead = before.isEmpty
  follows : before ≠ [] → args.srcId = dataId ∧ args.tick = tick
  last : args.last = false

/-- A call after it has read some chunks. -/
structure Reading (args : PacketizedArgs) (tick : UInt64) (dataId : UInt16)
    (before read : List (List UInt8)) (state : State) : Prop where
  buffer : state.dataBuf = args.dataBuf.write 0 read.flatten
  total : state.totalBytesRead = read.flatten.length
  remaining : state.remainingLen.toNat + read.flatten.length = args.bufLen.toNat
  next : state.nextOffset = UInt32.ofNat (before ++ read).flatten.length
  count : state.pktCount = UInt32.ofNat read.length
  first : state.veryFirstRead = (before ++ read).isEmpty
  follows : before ++ read ≠ [] →
    state.srcId = dataId ∧ state.firstSrcId = dataId ∧ state.firstTick = tick
  passed : read ≠ [] → state.packetTick = tick

theorem reading_start {before : List (List UInt8)} (ready : Ready args tick dataId before) :
    Reading args tick dataId before [] (start args) where
  buffer := by
    funext address
    exact (Memory.write_outside _ _ _ (.inr (Nat.zero_le _))).symm
  total := rfl
  remaining := rfl
  next := by rw [List.append_nil, ← ready.offset]; rfl
  count := rfl
  first := by rw [List.append_nil, ← ready.first]; rfl
  follows := by
    rw [List.append_nil]
    intro notNil
    rcases ready.follows notNil with ⟨source, same⟩
    exact ⟨source, source, same⟩
  passed := fun notNil => absurd rfl notNil

/-- The chunks read so far with one more. -/
theorem flatten_next (before read : List (List UInt8)) (chunk : List UInt8) :
    (before ++ (read ++ [chunk])).flatten.length =
      (before ++ read).flatten.length + chunk.length := by
  simp [Nat.add_assoc]

section Step

variable {before read rest : List (List UInt8)} {chunk : List UInt8} {state : State}
variable (ready : Ready args tick dataId before)
variable (reading : Reading args tick dataId before read state)
variable (order : before ++ read ++ chunk :: rest = transmission.chunks)

/-- The packet of the next chunk. -/
def nextPacket (transmission : Transmission) (tick : UInt64) (dataId : UInt16)
    (before read : List (List UInt8)) (chunk : List UInt8) : Packet :=
  transmission.packet tick dataId ⟨(before ++ read).flatten.length, chunk⟩

include order in
theorem nextPacket_wellFormed :
    (nextPacket transmission tick dataId before read chunk).WellFormed := by
  have member : chunk ∈ transmission.chunks := by
    rw [← order]
    simp
  exact ⟨transmission.versionNonneg, transmission.versionLt, transmission.nonempty chunk member,
    transmission.fits chunk member⟩

include order in
theorem payload_length : transmission.payload.length =
    (before ++ read).flatten.length + chunk.length + rest.flatten.length := by
  rw [Transmission.payload, ← order, List.flatten_append, List.length_append, List.flatten_cons,
    List.length_append, Nat.add_assoc]

/-- The next packet goes right behind what the call has read. -/
theorem offsetLocal_next (transmission : Transmission) (chunk : List UInt8)
    (ready : Ready args tick dataId before)
    (short : (before ++ read).flatten.length < 2 ^ 32) :
    (offsetLocal args
      (Complete.fields (nextPacket transmission tick dataId before read chunk))).toNat =
      read.flatten.length := by
  show (UInt32.ofNat (before ++ read).flatten.length - args.offset).toNat = _
  rw [ready.offset, List.flatten_append, List.length_append, UInt32.ofNat_add, UInt32.add_comm,
    UInt32.add_sub_cancel]
  rw [List.flatten_append, List.length_append] at short
  exact UInt32.toNat_ofNat_of_lt' (by show _ < 2 ^ 32; omega)

include reading

/-- The next packet is copied. -/
theorem plan_next :
    plan state (Complete.fields (nextPacket transmission tick dataId before read chunk)) =
      .copy { state with
        packetTick := tick
        srcId := dataId
        firstSrcId := dataId
        firstTick := tick } := by
  have first := reading.first
  have next := reading.next
  by_cases isNil : before ++ read = []
  · rw [isNil] at first next
    apply plan_first first
    show UInt32.ofNat (before ++ read).flatten.length = 0
    rw [isNil]
    rfl
  · rw [List.isEmpty_eq_false_iff.mpr isNil] at first
    rcases reading.follows isNil with ⟨source, firstSource, firstTick⟩
    rw [plan_expected first next.symm firstSource.symm firstTick.symm, ← source, ← firstTick]
    rw [source, ← firstSource]
    rfl

/-- The state after the next packet was copied. -/
def State.next (args : PacketizedArgs) (tick : UInt64) (dataId : UInt16) (packet : Packet)
    (state : State) : State :=
  State.copied args
    { state with
      packetTick := tick
      srcId := dataId
      firstSrcId := dataId
      firstTick := tick } (Complete.fields packet) packet.payload

/-- The next packet extends what the call has read. -/
theorem reading_next (transmission : Transmission) (chunk : List UInt8)
    (ready : Ready args tick dataId before)
    (short : (before ++ read).flatten.length < 2 ^ 32)
    (room : chunk.length ≤ state.remainingLen.toNat) :
    Reading args tick dataId before (read ++ [chunk])
      (state.next args tick dataId (nextPacket transmission tick dataId before read chunk)) := by
  have place := offsetLocal_next transmission chunk ready short
  have small : state.remainingLen.toNat < 2 ^ 64 := state.remainingLen.toNat_lt
  have whole : (UInt64.ofNat chunk.length).toNat = chunk.length :=
    UInt64.toNat_ofNat_of_lt' (by show chunk.length < 2 ^ 64; omega)
  have flat : (read ++ [chunk]).flatten = read.flatten ++ chunk := by simp
  refine ⟨?_, ?_, ?_, ?_, ?_, ?_, fun _ => ⟨rfl, rfl, rfl⟩, fun _ => rfl⟩
  · have adjacent := Memory.write_append args.dataBuf 0 read.flatten chunk
    rw [Nat.zero_add, ← reading.buffer, ← place] at adjacent
    rw [flat, ← adjacent]
    rfl
  · show state.totalBytesRead + (chunk.length : Int) = _
    rw [reading.total, flat, List.length_append]
    push_cast
    rfl
  · have remaining := reading.remaining
    show (state.remainingLen - UInt64.ofNat chunk.length).toNat + _ = _
    rw [UInt64.toNat_sub_of_le _ _ (by rw [UInt64.le_iff_toNat_le, whole]; exact room), whole, flat,
      List.length_append]
    omega
  · show UInt32.ofNat (before ++ read).flatten.length + UInt32.ofNat chunk.length = _
    rw [flatten_next, UInt32.ofNat_add]
  · show state.pktCount + 1 = _
    rw [reading.count, List.length_append, UInt32.ofNat_add]
    rfl
  · simp [State.next, State.copied]

include order

/-- The packet of the last chunk ends the call, any other one leads to the
question for room. -/
theorem round_next :
    round args state (nextPacket transmission tick dataId before read chunk).recv =
      if rest = [] then
        .leave ((state.next args tick dataId
          (nextPacket transmission tick dataId before read chunk)).done true)
      else checkRoom args
        (state.next args tick dataId (nextPacket transmission tick dataId before read chunk)) := by
  have whole := payload_length order
  have short : transmission.payload.length < 2 ^ 32 := transmission.short
  have nonempty : rest = [] ↔ rest.flatten.length = 0 := by
    constructor
    · rintro rfl
      rfl
    · intro empty
      by_contra notNil
      rcases List.exists_cons_of_ne_nil notNil with ⟨first, others, rfl⟩
      have positive := List.length_pos_iff.mpr (transmission.nonempty first (by
        rw [← order]
        simp))
      rw [List.flatten_cons, List.length_append] at empty
      omega
  have complete : UInt32.ofNat (before ++ read).flatten.length + UInt32.ofNat chunk.length ≥
      UInt32.ofNat transmission.payload.length ↔ rest = [] := by
    rw [← UInt32.ofNat_add, ge_iff_le, UInt32.le_iff_toNat_le,
      UInt32.toNat_ofNat_of_lt' (by show _ < 2 ^ 32; omega),
      UInt32.toNat_ofNat_of_lt' (by show _ < 2 ^ 32; omega), nonempty]
    omega
  rw [round_recv state (nextPacket_wellFormed order), handle, plan_next reading]
  exact if_congr complete rfl rfl

include ready

/-- The next packet is copied into the room that there is. -/
theorem copiesInside_next (room : chunk.length ≤ state.remainingLen.toNat) :
    CopiesInside args state (nextPacket transmission tick dataId before read chunk).recv := by
  intro first count copies
  rcases roundCopy_some copies with ⟨bytes, copying, isPacket, -, rfl, rfl⟩
  cases isPacket
  have whole := payload_length order
  have short : transmission.payload.length < 2 ^ 32 := transmission.short
  have remaining := reading.remaining
  have place := offsetLocal_next transmission chunk ready
    (show (before ++ read).flatten.length < 2 ^ 32 by omega)
  have wellFormed : (nextPacket transmission tick dataId before read chunk).WellFormed :=
    nextPacket_wellFormed order
  rcases Complete.arrived_bytes args.host wellFormed with ⟨header, payload⟩
  rw [header, payload, place]
  show _ + chunk.length ≤ _ ∧ chunk.length ≤ _
  omega

end Step

/-- A call that begins with a chunk to read reads some chunks into its buffer
and leaves the others. -/
theorem exists_call {before : List (List UInt8)} (ready : Ready args tick dataId before)
    (jumbo : ∀ chunk ∈ transmission.chunks, chunk.length ≤ maxEjfatMtu)
    {read : List (List UInt8)} {state : State}
    (reading : Reading args tick dataId before read state)
    (room : maxEjfatMtu ≤ state.remainingLen.toNat) {rest : List (List UInt8)} (nonempty : rest ≠ [])
    (order : before ++ read ++ rest = transmission.chunks) :
    ∃ now later final, rest = now ++ later ∧ now ≠ [] ∧
      feed (round args) state
          (packetsFrom transmission tick dataId (before ++ read).flatten.length rest) =
        .left (final.done later.isEmpty)
          (packetsFrom transmission tick dataId (before ++ (read ++ now)).flatten.length later) ∧
      Reading args tick dataId before (read ++ now) final ∧
      Along (round args) (CopiesInside args) state
        (packetsFrom transmission tick dataId (before ++ read).flatten.length rest) := by
  induction rest generalizing read state with
  | nil => exact absurd rfl nonempty
  | cons chunk rest inductionHypothesis =>
      have member : chunk ∈ transmission.chunks := by
        rw [← order]
        simp
      have fits : chunk.length ≤ state.remainingLen.toNat := (jumbo chunk member).trans room
      have whole := payload_length order
      have short : transmission.payload.length < 2 ^ 32 := transmission.short
      have next := reading_next reading transmission chunk ready (by omega) fits
      have inside := copiesInside_next ready reading order fits
      have step := round_next reading order
      have packets : packetsFrom transmission tick dataId (before ++ read).flatten.length
          (chunk :: rest) = (nextPacket transmission tick dataId before read chunk).recv ::
            packetsFrom transmission tick dataId
              (before ++ (read ++ [chunk])).flatten.length rest := by
        rw [flatten_next]
        rfl
      rw [packets]
      cases rest with
      | nil =>
          rw [if_pos rfl] at step
          refine ⟨[chunk], [], _, rfl, by simp, feed_cons_of_leave step _, next, ?_⟩
          exact (along_cons_of_leave step _).mpr inside
      | cons second others =>
          rw [if_neg (by simp)] at step
          cases question : checkRoom args (state.next args tick dataId
            (nextPacket transmission tick dataId before read chunk)) with
          | leave outcome =>
              rw [question] at step
              have ended := checkRoom_leave question
              rw [ready.last] at ended
              refine ⟨[chunk], second :: others, _, rfl, by simp, ?_, next, ?_⟩
              · rw [feed_cons_of_leave step, ended]
                rfl
              · exact (along_cons_of_leave step _).mpr inside
          | again after =>
              rw [question] at step
              rcases checkRoom_again question with ⟨rfl, enough⟩
              rcases inductionHypothesis next enough (by simp) (by simp [← order]) with
                ⟨now, later, final, split, -, ends, finished, along⟩
              refine ⟨chunk :: now, later, final, by rw [split]; rfl, by simp, ?_, ?_, ?_⟩
              · rw [feed_cons_of_again step, ends]
                simp
              · rwa [List.append_assoc] at finished
              · exact (along_cons_of_again step _).mpr ⟨inside, along⟩

/-! ### All calls -/

/-- The calls have read some chunks: each its piece to the start of its buffer
and nowhere else, in order and with the number of its packets, and `*last` was
set by the final call only. -/
structure StagedRead (chunks : List (List UInt8)) (calls : List StagedCall) : Prop where
  pieces : ∃ pieces : List (List UInt8), pieces.flatten = chunks.flatten ∧
    List.Forall₂ (fun piece (call : StagedCall) => call.outcome.ret = piece.length ∧
      piece.length ≤ call.args.bufLen.toNat ∧
      call.outcome.dataBuf = call.args.dataBuf.write 0 piece) pieces calls
  inside : ∀ call ∈ calls, AlongCall call.args (CopiesInside call.args) call.socket
  last : ∃ earlier final, calls = earlier ++ [final] ∧ final.outcome.last = true ∧
    ∀ call ∈ earlier, call.outcome.last = false
  counts : (calls.map fun call => call.outcome.packetCount.toNat).sum = chunks.length

theorem StagedRead.cons {now later : List (List UInt8)} {call : StagedCall}
    {calls : List StagedCall} (staged : StagedRead later calls)
    (ret : call.outcome.ret = now.flatten.length)
    (fits : now.flatten.length ≤ call.args.bufLen.toNat)
    (buffer : call.outcome.dataBuf = call.args.dataBuf.write 0 now.flatten)
    (inside : AlongCall call.args (CopiesInside call.args) call.socket)
    (last : call.outcome.last = false) (count : call.outcome.packetCount.toNat = now.length) :
    StagedRead (now ++ later) (call :: calls) where
  pieces := by
    rcases staged.pieces with ⟨pieces, all, each⟩
    exact ⟨now.flatten :: pieces, by simp [all], .cons ⟨ret, fits, buffer⟩ each⟩
  inside := by
    intro other member
    rcases List.mem_cons.mp member with rfl | among
    · exact inside
    · exact staged.inside other among
  last := by
    rcases staged.last with ⟨earlier, final, rfl, set, unset⟩
    refine ⟨call :: earlier, final, rfl, set, ?_⟩
    intro other member
    rcases List.mem_cons.mp member with rfl | among
    · exact last
    · exact unset other among
  counts := by
    rw [List.map_cons, List.sum_cons, staged.counts, count, List.length_append]

theorem StagedRead.single {now : List (List UInt8)} {call : StagedCall}
    (ret : call.outcome.ret = now.flatten.length)
    (fits : now.flatten.length ≤ call.args.bufLen.toNat)
    (buffer : call.outcome.dataBuf = call.args.dataBuf.write 0 now.flatten)
    (inside : AlongCall call.args (CopiesInside call.args) call.socket)
    (last : call.outcome.last = true) (count : call.outcome.packetCount.toNat = now.length) :
    StagedRead now [call] where
  pieces := ⟨[now.flatten], by simp, .cons ⟨ret, fits, buffer⟩ .nil⟩
  inside := by
    intro other member
    rw [List.mem_singleton.mp member]
    exact inside
  last := ⟨[], call, rfl, last, nofun⟩
  counts := by simp [count]

/-- What the caller carries on after some chunks. -/
structure Carries (tick : UInt64) (dataId : UInt16) (before : List (List UInt8))
    (carried : Carried) : Prop where
  offset : carried.offset = UInt32.ofNat before.flatten.length
  first : carried.veryFirstRead = before.isEmpty
  follows : before ≠ [] → carried.srcId = dataId ∧ carried.tick = tick

/-- There are fewer chunks than a packet counter holds. -/
theorem chunks_length_lt (transmission : Transmission) {now : List (List UInt8)}
    (among : ∀ chunk ∈ now, chunk ∈ transmission.chunks)
    (short : now.flatten.length ≤ transmission.payload.length) : now.length < 2 ^ 32 := by
  have nonempty : ∀ piece ∈ layout 0 now, piece.block ≠ [] := fun piece member =>
    transmission.nonempty _ (among _ (mem_layout_block member))
  have count := length_le_weight nonempty
  have fits : transmission.payload.length < 2 ^ 32 := transmission.short
  rw [layout_length, weight_layout] at count
  omega

/-- The calls that are left read the chunks that are left. -/
theorem exists_calls (host : ByteOrder) {buffers : Nat → StageBuffer}
    (large : ∀ index, maxEjfatMtu ≤ (buffers index).bufLen.toNat)
    (jumbo : ∀ chunk ∈ transmission.chunks, chunk.length ≤ maxEjfatMtu)
    {before rest : List (List UInt8)} (hasRest : rest ≠ [])
    (order : before ++ rest = transmission.chunks) {carried : Carried}
    (carries : Carries tick dataId before carried) (index : Nat) :
    ∃ fuel calls, readStages host buffers fuel index carried
        (packetsFrom transmission tick dataId before.flatten.length rest) = Option.some calls ∧
      StagedRead rest calls := by
  induction size : rest.length using Nat.strong_induction_on
    generalizing before rest carried index with
  | _ bound inductionHypothesis =>
      have ready : Ready (carried.args host (buffers index)) tick dataId before :=
        ⟨carries.offset, carries.first, carries.follows, rfl⟩
      have room : checkRoom (carried.args host (buffers index))
          (start (carried.args host (buffers index))) =
          .again (start (carried.args host (buffers index))) := by
        refine if_neg ?_
        rw [UInt64.lt_iff_toNat_lt, not_lt]
        exact large index
      rcases exists_call ready jumbo (reading_start ready) (large index) hasRest
        (by rw [List.append_nil]; exact order) with
        ⟨now, later, final, rfl, moves, ends, reading, along⟩
      rw [List.append_nil, List.nil_append] at ends
      rw [List.append_nil] at along
      rw [List.nil_append] at reading
      have call : getPacketizedBuffer (carried.args host (buffers index))
          (packetsFrom transmission tick dataId before.flatten.length (now ++ later)) =
          .left (final.done later.isEmpty)
            (packetsFrom transmission tick dataId (before ++ now).flatten.length later) := by
        rw [getPacketizedBuffer, room]
        exact ends
      have inside : AlongCall (carried.args host (buffers index))
          (CopiesInside (carried.args host (buffers index)))
          (packetsFrom transmission tick dataId before.flatten.length (now ++ later)) := by
        rw [AlongCall, room]
        exact along
      have fits : now.flatten.length ≤ (carried.args host (buffers index)).bufLen.toNat := by
        have remaining := reading.remaining
        omega
      have count : final.pktCount.toNat = now.length := by
        have within : now.length < 2 ^ 32 := by
          apply chunks_length_lt transmission
          · intro chunk member
            rw [← order]
            simp [member]
          · rw [Transmission.payload, ← order]
            simp only [List.flatten_append, List.length_append]
            omega
        rw [reading.count]
        exact UInt32.toNat_ofNat_of_lt' within
      have succeeds : ¬ final.totalBytesRead < 0 := by
        rw [reading.total]
        omega
      cases later with
      | nil =>
          rw [List.append_nil] at call inside ⊢
          exact ⟨1, _, readStages_end call (.inr rfl) 0,
            .single reading.total fits reading.buffer inside rfl count⟩
      | cons next others =>
          have carriesOn : Carries tick dataId (before ++ now)
              ⟨false, final.srcId, final.packetTick, final.nextOffset⟩ := by
            have nonempty : before ++ now ≠ [] := by simp [moves]
            refine ⟨reading.next, (List.isEmpty_eq_false_iff.mpr nonempty).symm, fun _ => ?_⟩
            exact ⟨(reading.follows nonempty).1, reading.passed moves⟩
          have shorter : (next :: others).length < bound := by
            have positive := List.length_pos_iff.mpr moves
            rw [← size, List.length_append]
            omega
          rcases inductionHypothesis _ shorter (List.cons_ne_nil next others)
            (by rw [← order, List.append_assoc]) carriesOn (index + 1) rfl with
            ⟨fuel, calls, returns, staged⟩
          have goesOn : ¬ ((final.done false).ret < 0 ∨ (final.done false).last = true) := by
            intro either
            rcases either with fails | set
            · exact succeeds fails
            · cases set
          have all : StagedRead (now ++ next :: others) (StagedCall.mk
              (carried.args host (buffers index))
              (packetsFrom transmission tick dataId before.flatten.length (now ++ next :: others))
              (final.done false) :: calls) :=
            staged.cons reading.total fits reading.buffer inside rfl count
          refine ⟨fuel + 1, _, ?_, all⟩
          rw [readStages_again call goesOn]
          exact congrArg (Option.map _) returns

/-- A payload that was sent in order in packets of up to 9978 bytes is read in
pieces by a caller who gives a buffer of at least 9978 bytes each time. -/
theorem getPacketizedBuffer_stages (host : ByteOrder) (transmission : Transmission) (tick : UInt64)
    (dataId : UInt16) (jumbo : ∀ chunk ∈ transmission.chunks, chunk.length ≤ maxEjfatMtu)
    (buffers : Nat → StageBuffer) (large : ∀ index, maxEjfatMtu ≤ (buffers index).bufLen.toNat)
    (srcId : UInt16) (tickBefore : UInt64) :
    ∃ fuel calls, readStages host buffers fuel 0 ⟨true, srcId, tickBefore, 0⟩
        ((transmission.packets tick dataId).map Packet.recv) = some calls ∧
      StagedRead transmission.chunks calls := by
  have begins : Carries tick dataId [] ⟨true, srcId, tickBefore, 0⟩ :=
    ⟨rfl, rfl, fun notNil => absurd rfl notNil⟩
  rcases exists_calls host large jumbo transmission.hasChunks (List.nil_append _) begins 0 with
    ⟨fuel, calls, returns, staged⟩
  refine ⟨fuel, calls, ?_, staged⟩
  rw [← returns, Transmission.packets, List.map_map]
  rfl

/-- Three bytes in two packets. -/
def sampleStages : Transmission where
  version := 2
  reserved := 0
  chunks := [[1], [2, 3]]
  versionNonneg := versionTwo_nonneg
  versionLt := versionTwo_lt
  hasChunks := by decide
  nonempty := by decide
  fits := by decide
  short := by decide

theorem getPacketizedBuffer_stages_sample :
    ∃ fuel calls, readStages .little (fun _ => ⟨fun _ => 0, 9978, 0, 0⟩) fuel 0 ⟨true, 0, 0, 0⟩
        ((sampleStages.packets 5 7).map Packet.recv) = some calls ∧
      StagedRead sampleStages.chunks calls :=
  getPacketizedBuffer_stages .little sampleStages 5 7 (by decide) _ (fun _ => by decide) 0 0

end Packetized

end Dift.Assemble
