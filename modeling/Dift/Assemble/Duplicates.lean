import Dift.Assemble.RoundTrip

/-!
Owns what one duplicated datagram does to `getCompletePacketizedBuffer`. The
loop counts the bytes it copies and not the places it fills, so a copy stands
in for packets that were still to come. The exact condition under which it
changes nothing is proved for every stream and every place of the copy.
-/

namespace Dift.Assemble

open Dift.Foundation
open Dift.Wire

namespace Session

variable {bufLen : Nat} {tick : UInt64} {dataId : UInt16} {total : Nat}

/-- A session that dumps a tick never gets out of it by that tick's packets. -/
theorem feed_dumping {packets : List Packet} (ticks : ∀ packet ∈ packets, packet.tick = tick)
    (earlier : List (Placed UInt8)) :
    feed (step bufLen) ⟨earlier, .dumping tick⟩ packets = .waiting ⟨earlier, .dumping tick⟩ := by
  induction packets with
  | nil => rfl
  | cons packet rest inductionHypothesis =>
      have stepped : step bufLen ⟨earlier, .dumping tick⟩ packet =
          .again ⟨earlier, .dumping tick⟩ := by
        simp [step, ticks packet (by simp)]
      rw [feed_cons_of_again stepped]
      exact inductionHypothesis fun one member => ticks one (by simp [member])

/-- A session that ends on packets of one tick and source has been building
since the first of them. -/
theorem step_initial_of_left {first : Packet} {others rest : List Packet} {verdict : Verdict}
    (uniform : Uniform tick dataId total (first :: others))
    (ends : feed (step bufLen) initial (first :: others) = .left verdict rest) :
    step bufLen initial first = step bufLen ⟨[], .building tick dataId []⟩ first := by
  have sameTick : first.tick = tick := uniform.ticks first (by simp)
  have sameSource : first.dataId = dataId := uniform.sources first (by simp)
  by_cases begins : first.offset = 0
  · rw [step_initial begins, sameTick, sameSource]
  · by_cases sentinel : first.tick = Complete.uintMax
    · simp [step, initial, ← sameTick, ← sameSource, sentinel]
    · have dumped : step bufLen initial first = .again ⟨[], .dumping tick⟩ := by
        simp [step, initial, change, begins, sentinel, ← sameTick]
      rw [feed_cons_of_again dumped, feed_dumping
        fun packet member => uniform.ticks packet (by simp [member])] at ends
      cases ends

/-- What a building session that completed with its last packet tells about
the packets: they fit, they reach the length, and no part of them does. -/
theorem feed_complete_inv {packets : List Packet} (uniform : Uniform tick dataId total packets)
    {earlier got before pieces : List (Placed UInt8)} {finalTick : UInt64} {finalId : UInt16}
    (ends : feed (step bufLen) ⟨earlier, .building tick dataId got⟩ packets =
      .left (.complete finalTick finalId before pieces) []) :
    Roomy bufLen packets ∧ total ≤ weight (got ++ packets.map Packet.piece) ∧
      ∀ front back, packets = front ++ back → front ≠ [] → back ≠ [] →
        weight (got ++ front.map Packet.piece) < total := by
  induction packets generalizing got with
  | nil => cases ends
  | cons packet rest inductionHypothesis =>
      have sameTick : packet.tick = tick := uniform.ticks packet (by simp)
      have sameSource : packet.dataId = dataId := uniform.sources packet (by simp)
      by_cases room : packet.offset.toNat + packet.payload.length ≤ bufLen
      · have stepped := step_building earlier got room
        rw [sameTick, sameSource, uniform.lengths packet (by simp)] at stepped
        by_cases complete : total ≤ weight (got ++ [packet.piece])
        · rw [if_pos complete] at stepped
          rw [feed_cons_of_leave stepped] at ends
          cases ends
          refine ⟨by simpa [Roomy] using room, complete, ?_⟩
          intro front back split frontSome backSome
          have sizes := congrArg List.length split
          have frontPositive := List.length_pos_iff.mpr frontSome
          have backPositive := List.length_pos_iff.mpr backSome
          simp only [List.length_cons, List.length_nil, List.length_append] at sizes
          omega
        · rw [if_neg complete] at stepped
          rw [feed_cons_of_again stepped] at ends
          rcases inductionHypothesis
            (uniform.subset (List.subset_cons_self _ _)) ends with ⟨roomRest, reached, short⟩
          refine ⟨?_, by simpa using reached, ?_⟩
          · intro one member
            rcases List.mem_cons.mp member with rfl | later
            · exact room
            · exact roomRest one later
          · intro front back split frontSome backSome
            rcases List.exists_cons_of_ne_nil frontSome with ⟨head, tail, rfl⟩
            rcases List.cons.inj split with ⟨rfl, restSplit⟩
            cases tail with
            | nil => exact not_le.mp complete
            | cons next others =>
                have shorter := short (next :: others) back restSplit (by simp) backSome
                simpa using shorter
      · have refused : step bufLen ⟨earlier, .building tick dataId got⟩ packet =
            .leave .tooSmall := by
          simp [step, sameTick, sameSource, accept, not_le.mp room]
        rw [feed_cons_of_leave refused] at ends
        cases ends

end Session

/-! ### One more copy -/

/-- With one more copy between `before` and `after` the call still returns the
same length, tick, source and bytes as it did in `base`. -/
def SameWithCopy (args : CompleteArgs) (before : List Packet) (copy : Packet)
    (after : List Packet) (tail : List Recv) (base : Outcome) : Prop :=
  ∃ outcome rest,
    getCompletePacketizedBuffer args ((before ++ copy :: after).map Packet.recv ++ tail) =
      .left (.returned outcome) rest ∧
    outcome.ret = base.ret ∧ outcome.tick = base.tick ∧ outcome.dataId = base.dataId ∧
    outcome.dataBuf.read 0 base.ret.toNat = base.dataBuf.read 0 base.ret.toNat

/-- Number of payload bytes in some packets. -/
def payloadBytes (packets : List Packet) : Nat :=
  (packets.map fun packet => packet.payload.length).sum

theorem weight_map_piece (packets : List Packet) :
    weight (packets.map Packet.piece) = payloadBytes packets := by
  simp [weight, payloadBytes, Packet.piece, Function.comp_def]

/-- The packets after a copy that are no longer read, when the payload has
`total` bytes: the count is full without them. -/
def crowdedOut (total : Nat) (before : List Packet) (copy : Packet) (after : List Packet) :
    List Packet :=
  Session.leftover (total - (payloadBytes before + copy.payload.length)) after

/-- The packets after a copy that are still read. -/
def stillRead (total : Nat) (before : List Packet) (copy : Packet) (after : List Packet) :
    List Packet :=
  Session.taken (total - (payloadBytes before + copy.payload.length)) after

/-- The packets that a copy crowds out carry as many bytes as the copy, and
each of their bytes comes with a packet that is read or was in the buffer
before the call. -/
def Replaceable (dataBuf : Mem) (payload : List UInt8) (before : List Packet) (copy : Packet)
    (after : List Packet) : Prop :=
  payloadBytes (crowdedOut payload.length before copy after) = copy.payload.length ∧
  ∀ packet ∈ crowdedOut payload.length before copy after,
    ∀ index, packet.piece.Covers index →
      (∃ other ∈ before ++ stillRead payload.length before copy after,
        other.piece.Covers index) ∨
      some (dataBuf index) = payload[index]?

section Copy

variable {bufLen : Nat} {tick : UInt64} {dataId : UInt16} {total : Nat}
variable {before after : List Packet} {copy : Packet}

/-- A session that completed keeps every packet it read. -/
private theorem base_run (uniform : Session.Uniform tick dataId total (before ++ after))
    (beforeSome : before ≠ []) (afterSome : after ≠ []) {finalTick : UInt64} {finalId : UInt16}
    {earlier got : List (Placed UInt8)}
    (ends : feed (Session.step bufLen) Session.initial (before ++ after) =
      .left (.complete finalTick finalId earlier got) []) :
    (∀ packets, feed (Session.step bufLen) Session.initial (before ++ packets) =
        feed (Session.step bufLen) ⟨[], .building tick dataId (before.map Packet.piece)⟩ packets) ∧
      Session.Roomy bufLen (before ++ after) ∧ payloadBytes before < total ∧
      total ≤ payloadBytes before + payloadBytes after := by
  rcases List.exists_cons_of_ne_nil beforeSome with ⟨first, others, rfl⟩
  have start := Session.step_initial_of_left uniform ends
  have moved : ∀ packets, feed (Session.step bufLen) Session.initial (first :: packets) =
      feed (Session.step bufLen) ⟨[], .building tick dataId []⟩ (first :: packets) := by
    intro packets
    simp only [feed, start]
  rw [List.cons_append, moved] at ends
  rcases Session.feed_complete_inv uniform ends with ⟨room, reached, short⟩
  have few := short (first :: others) after rfl (by simp) afterSome
  rw [List.nil_append] at few
  have waiting := Session.feed_incomplete (uniform.subset (List.subset_append_left _ after))
    (fun packet member => room packet (List.mem_append_left _ member)) [] [] (by simpa using few)
  rw [List.nil_append] at waiting
  refine ⟨?_, room, ?_, ?_⟩
  · intro packets
    rw [List.cons_append, moved, ← List.cons_append, feed_append_of_waiting waiting]
  · rwa [← weight_map_piece]
  · rw [← weight_map_piece, ← weight_map_piece, ← weight_append, ← List.map_append]
    exact reached

/-- The verdict without the copy. -/
private theorem base_verdict (uniform : Session.Uniform tick dataId total (before ++ after))
    (beforeSome : before ≠ []) (afterSome : after ≠ []) {finalTick : UInt64} {finalId : UInt16}
    {earlier got : List (Placed UInt8)}
    (ends : feed (Session.step bufLen) Session.initial (before ++ after) =
      .left (.complete finalTick finalId earlier got) []) :
    finalTick = tick ∧ finalId = dataId ∧ earlier = [] ∧
      got = (before ++ after).map Packet.piece := by
  rcases base_run uniform beforeSome afterSome ends with ⟨started, room, few, enough⟩
  have run := Session.feed_complete (uniform.subset (List.subset_append_right before after))
    (fun packet member => room packet (List.mem_append_right _ member)) [] (before.map Packet.piece)
    (by rwa [weight_map_piece]) (by rwa [weight_append, weight_map_piece, weight_map_piece])
  rw [← started, ends] at run
  injection run with sameVerdict none
  have split := Session.taken_append_leftover
    (total - weight (before.map Packet.piece)) after
  rw [← none, List.append_nil] at split
  rw [split] at sameVerdict
  injection sameVerdict with sameTick sameId sameEarlier sameGot
  exact ⟨sameTick, sameId, sameEarlier, by rw [sameGot, List.map_append]⟩

/-- The verdict with the copy: it completes with the packets it does not crowd
out. -/
private theorem copy_run (uniform : Session.Uniform tick dataId total (before ++ after))
    (member : copy ∈ before) (afterSome : after ≠ []) {finalTick : UInt64} {finalId : UInt16}
    {earlier got : List (Placed UInt8)}
    (ends : feed (Session.step bufLen) Session.initial (before ++ after) =
      .left (.complete finalTick finalId earlier got) []) :
    feed (Session.step bufLen) Session.initial (before ++ copy :: after) =
      .left (.complete tick dataId []
          ((before ++ copy :: stillRead total before copy after).map Packet.piece))
        (crowdedOut total before copy after) := by
  obtain ⟨started, room, few, enough⟩ :=
    base_run uniform (List.ne_nil_of_mem member) afterSome ends
  have subset : copy :: after ⊆ before ++ after :=
    List.cons_subset.mpr ⟨List.mem_append_left _ member, List.subset_append_right _ _⟩
  have run := Session.feed_complete (uniform.subset subset)
    (fun packet inside => room packet (subset inside)) [] (before.map Packet.piece)
    (by rwa [weight_map_piece])
    (by
      rw [weight_append, weight_map_piece, weight_map_piece]
      simp only [payloadBytes, List.map_cons, List.sum_cons] at enough ⊢
      omega)
  have needs : ¬ total - weight (before.map Packet.piece) = 0 := by
    rw [weight_map_piece]
    omega
  rw [started, run]
  simp only [Session.taken, Session.leftover, if_neg needs]
  rw [weight_map_piece, Nat.sub_sub]
  simp only [List.map_append, List.map_cons]
  rfl

end Copy

/-- Both verdicts count as many bytes exactly when the copy crowds out as many
as it has. -/
private theorem weight_with_copy_iff (total : Nat) (before after : List Packet) (copy : Packet) :
    weight ((before ++ copy :: stillRead total before copy after).map Packet.piece) =
        weight ((before ++ after).map Packet.piece) ↔
      payloadBytes (crowdedOut total before copy after) = copy.payload.length := by
  have split : payloadBytes (stillRead total before copy after) +
      payloadBytes (crowdedOut total before copy after) = payloadBytes after := by
    rw [payloadBytes, payloadBytes, ← List.sum_append, ← List.map_append]
    exact congrArg payloadBytes (Session.taken_append_leftover _ after)
  rw [weight_map_piece, weight_map_piece]
  simp only [payloadBytes, List.map_append, List.map_cons, List.sum_append,
    List.sum_cons] at split ⊢
  omega

/-- What the two verdicts leave in the buffer is the same exactly when the
packets the copy crowds out can be left out. -/
private theorem read_with_copy_iff {transmission : Transmission} {tick : UInt64} {dataId : UInt16}
    {before after : List Packet} {copy : Packet}
    (members : ∀ packet ∈ before ++ after, packet ∈ transmission.packets tick dataId)
    (member : copy ∈ before) (memory : Mem) {count : Nat}
    (whole : transmission.payload.length ≤ count) :
    (paste memory ((before ++ copy :: stillRead transmission.payload.length before copy after).map
        Packet.piece)).read 0 count =
      (paste memory ((before ++ after).map Packet.piece)).read 0 count ↔
    ∀ packet ∈ crowdedOut transmission.payload.length before copy after,
      ∀ index, packet.piece.Covers index →
        (∃ other ∈ before ++ stillRead transmission.payload.length before copy after,
          other.piece.Covers index) ∨
        some (memory index) = transmission.payload[index]? := by
  set kept := stillRead transmission.payload.length before copy after with keptEq
  set dropped := crowdedOut transmission.payload.length before copy after with droppedEq
  have split : kept ++ dropped = after := Session.taken_append_leftover _ _
  have agrees : ∀ packet ∈ before ++ after, packet.piece.Agrees transmission.payload :=
    fun packet inside => layout_agrees (Transmission.piece_mem (members packet inside))
  have keptInside : ∀ packet ∈ before ++ kept, packet ∈ before ++ after := by
    intro packet inside
    rw [← split, ← List.append_assoc]
    exact List.mem_append_left _ inside
  have droppedInside : ∀ packet ∈ dropped, packet ∈ before ++ after := by
    intro packet inside
    rw [← split, ← List.append_assoc]
    exact List.mem_append_right _ inside
  have withCopy : ∀ packet, packet ∈ before ++ copy :: kept ↔ packet ∈ before ++ kept := by
    intro packet
    simp only [List.mem_append, List.mem_cons]
    constructor
    · intro either
      rcases either with left | rfl | right
      · exact .inl left
      · exact .inl member
      · exact .inr right
    · intro either
      rcases either with left | right
      · exact .inl left
      · exact .inr (.inr right)
  -- The copy itself covers nothing that its original does not.
  have same : (paste memory ((before ++ copy :: kept).map Packet.piece)).read 0 count =
      (paste memory ((before ++ kept).map Packet.piece)).read 0 count := by
    rw [Memory.read_eq_iff]
    intro index _
    apply paste_congr transmission.payload
    · simpa only [List.forall_mem_map, withCopy] using
        fun packet inside => agrees packet (keptInside packet inside)
    · simpa only [List.forall_mem_map] using
        fun packet inside => agrees packet (keptInside packet inside)
    · simp only [List.mem_map, exists_exists_and_eq_and, withCopy]
  have base : (before ++ after).map Packet.piece =
      (before ++ kept).map Packet.piece ++ dropped.map Packet.piece := by
    rw [← split, ← List.append_assoc, List.map_append]
  rw [same, base, read_paste_append_iff transmission.payload memory]
  · simp only [List.mem_map, exists_exists_and_eq_and, forall_exists_index, and_imp,
      forall_apply_eq_imp_iff₂]
  · simpa only [List.forall_mem_map] using
      fun packet inside => agrees packet (keptInside packet inside)
  · simpa only [List.forall_mem_map] using
      fun packet inside => agrees packet (droppedInside packet inside)
  · simp only [List.forall_mem_map]
    intro packet inside
    exact le_trans (Transmission.mem_end_le (members packet (droppedInside packet inside))) whole

/-- One more copy of a packet is harmless exactly when the packets it crowds
out are replaceable. The stream may hold any packets of the payload, the copy
may come anywhere after its original and before the completing packet, and
anything may follow. -/
theorem sameWithCopy_iff (transmission : Transmission) (tick : UInt64) (dataId : UInt16)
    (args : CompleteArgs) (before after : List Packet) (copy : Packet) (tail : List Recv)
    (base : Outcome)
    (members : ∀ packet ∈ before ++ after, packet ∈ transmission.packets tick dataId)
    (member : copy ∈ before) (afterSome : after ≠ [])
    (returns : getCompletePacketizedBuffer args ((before ++ after).map Packet.recv ++ tail) =
      .left (.returned base) tail)
    (success : 0 ≤ base.ret) :
    SameWithCopy args before copy after tail base ↔
      Replaceable args.dataBuf transmission.payload before copy after := by
  have wellFormed : ∀ packet ∈ before ++ after, packet.WellFormed := fun packet inside =>
    Transmission.mem_wellFormed (members packet inside)
  have subset : before ++ copy :: after ⊆ before ++ after :=
    List.append_subset.mpr ⟨List.subset_append_left _ _,
      List.cons_subset.mpr ⟨List.mem_append_left _ member, List.subset_append_right _ _⟩⟩
  have wellFormedCopy : ∀ packet ∈ before ++ copy :: after, packet.WellFormed :=
    fun packet inside => wellFormed packet (subset inside)
  have uniform := Session.uniform_packets members
  obtain ⟨finalTick, finalId, earlier, got, unread, run, unreadEq, whole, delivers⟩ :=
    Complete.completed_of_returned wellFormed (feed_left_of_append returns) success
  obtain rfl : unread = [] := List.map_eq_nil_iff.mp unreadEq.symm
  obtain ⟨rfl, rfl, rfl, rfl⟩ :=
    base_verdict uniform (List.ne_nil_of_mem member) afterSome run
  obtain ⟨outcome, copied, copyDelivers⟩ :=
    Complete.returned_of_completed wellFormedCopy whole (copy_run uniform member afterSome run)
  have enough : transmission.payload.length ≤ base.ret.toNat := by
    rcases base_run uniform (List.ne_nil_of_mem member) afterSome run with ⟨-, -, -, reached⟩
    rw [delivers.ret, weight_map_piece, Int.toNat_natCast]
    simpa [payloadBytes] using reached
  have sameRet : outcome.ret = base.ret ↔
      payloadBytes (crowdedOut transmission.payload.length before copy after) =
        copy.payload.length := by
    rw [copyDelivers.ret, delivers.ret, Nat.cast_inj]
    exact weight_with_copy_iff _ before after copy
  have copyBuf : outcome.dataBuf = paste args.dataBuf
      ((before ++ copy :: stillRead transmission.payload.length before copy after).map
        Packet.piece) := copyDelivers.buffer
  have baseBuf : base.dataBuf = paste args.dataBuf ((before ++ after).map Packet.piece) :=
    delivers.buffer
  have sameBuf := read_with_copy_iff members member args.dataBuf enough
  rw [← copyBuf, ← baseBuf] at sameBuf
  have ends : getCompletePacketizedBuffer args ((before ++ copy :: after).map Packet.recv ++ tail) =
      .left (.returned outcome) _ := feed_append_of_left copied tail
  unfold SameWithCopy Replaceable
  rw [← sameRet, ← sameBuf]
  constructor
  · intro same
    obtain ⟨other, rest, otherReturns, ret, -, -, buffer⟩ := same
    rw [ends] at otherReturns
    injection otherReturns with sameExit
    injection sameExit with sameOutcome
    rw [sameOutcome]
    exact ⟨ret, buffer⟩
  · intro replaceable
    obtain ⟨ret, buffer⟩ := replaceable
    exact ⟨outcome, _, ends, ret,
      copyDelivers.tick.trans delivers.tick.symm, copyDelivers.dataId.trans delivers.dataId.symm,
      buffer⟩

/-! The payload `[1, 2, 3]`, one byte a packet, with a second copy of the first
packet right after it. -/

def samplePacket (offset : Nat) (byte : UInt8) : Packet :=
  sampleTransmission.packet 5 7 ⟨offset, [byte]⟩

/-- The receiver of the samples with a buffer that holds the payload already. -/
def staleReceive : CompleteArgs := { sampleReceive with dataBuf := sampleMemory }

theorem sample_members : ∀ packet ∈ [samplePacket 0 1] ++ [samplePacket 1 2, samplePacket 2 3],
    packet ∈ sampleTransmission.packets 5 7 := by
  decide

/-- In a buffer that holds the payload already the copy does no harm. -/
theorem sameWithCopy_staleReceive :
    ∃ base, getCompletePacketizedBuffer staleReceive
        (([samplePacket 0 1] ++ [samplePacket 1 2, samplePacket 2 3]).map Packet.recv ++ []) =
        .left (.returned base) [] ∧ 0 ≤ base.ret ∧
      SameWithCopy staleReceive [samplePacket 0 1] (samplePacket 0 1)
        [samplePacket 1 2, samplePacket 2 3] [] base := by
  rcases reassemble_perm (.inl rfl)
    (show sampleTransmission.payload.length ≤ staleReceive.bufLen by decide)
    (List.Perm.refl (sampleTransmission.packets 5 7)) rfl [] with ⟨base, returns, ret, -⟩
  have success : 0 ≤ base.ret := by
    rw [ret]
    decide
  refine ⟨base, returns, success, (sameWithCopy_iff sampleTransmission 5 7 staleReceive
    [samplePacket 0 1] [samplePacket 1 2, samplePacket 2 3] (samplePacket 0 1) [] base
    sample_members (by decide) (by decide) returns success).mpr ⟨by decide, ?_⟩⟩
  have last : crowdedOut sampleTransmission.payload.length [samplePacket 0 1] (samplePacket 0 1)
      [samplePacket 1 2, samplePacket 2 3] = [samplePacket 2 3] := by decide
  rw [last]
  intro packet member index covers
  rcases List.mem_singleton.mp member with rfl
  obtain rfl : index = 2 := by
    rcases covers with ⟨above, below⟩
    change 2 ≤ index at above
    change index < 2 + 1 at below
    omega
  exact .inr (by decide)

/-- In a buffer of zeros the payload is returned as complete with a hole in the
place of the third packet. -/
theorem not_sameWithCopy_sampleReceive :
    ∃ base, getCompletePacketizedBuffer sampleReceive
        (([samplePacket 0 1] ++ [samplePacket 1 2, samplePacket 2 3]).map Packet.recv ++ []) =
        .left (.returned base) [] ∧ 0 ≤ base.ret ∧
      ¬ SameWithCopy sampleReceive [samplePacket 0 1] (samplePacket 0 1)
        [samplePacket 1 2, samplePacket 2 3] [] base := by
  rcases reassemble_perm (.inl rfl)
    (show sampleTransmission.payload.length ≤ sampleReceive.bufLen by decide)
    (List.Perm.refl (sampleTransmission.packets 5 7)) rfl [] with ⟨base, returns, ret, buffer, -⟩
  have success : 0 ≤ base.ret := by
    rw [ret]
    decide
  refine ⟨base, returns, success, ?_⟩
  intro sameWithCopy
  obtain ⟨outcome, rest, ends, -, -, -, same⟩ := sameWithCopy
  have wellFormed : ∀ packet ∈
      [samplePacket 0 1, samplePacket 0 1, samplePacket 1 2, samplePacket 2 3],
      packet.WellFormed := by
    intro packet member
    exact Transmission.mem_wellFormed (sample_members packet (by simpa using member))
  have whole : ¬ Complete.Divides sampleReceive := fun divides => Bool.noConfusion divides.1
  have run : feed (Session.step sampleReceive.bufLen) Session.initial
      [samplePacket 0 1, samplePacket 0 1, samplePacket 1 2, samplePacket 2 3] =
      .left (.complete 5 7 [] [⟨0, [1]⟩, ⟨0, [1]⟩, ⟨1, [2]⟩]) [samplePacket 2 3] := by decide
  obtain ⟨corrupt, corruptReturns, delivers⟩ :=
    Complete.returned_of_completed wellFormed whole run
  have sameEnd := (feed_append_of_left corruptReturns []).symm.trans ends
  injection sameEnd with sameExit
  injection sameExit with sameOutcome
  rw [← sameOutcome, delivers.buffer, ret, Int.toNat_natCast, buffer] at same
  exact absurd same (by decide)

end Dift.Assemble
