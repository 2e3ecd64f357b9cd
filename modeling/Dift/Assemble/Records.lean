import Dift.Assemble.Reassembled

/-!
Owns the record of arrivals that `getReassembledBuffer` keeps in the buffer it
fills: the number of each packet, in order of arrival, behind the three words of
the first one. When all packets of one call arrive, the first one first, the
call returns with the last one, and the buffer holds what the copies have left.
The data of later packets goes over the record, which is whole exactly when
those packets happen to hold the same bytes.
-/

namespace Dift.Assemble.Reassembled

open Dift.Foundation
open Dift.Wire
open Dift.Packetize.Grpc

/-! ### What is written -/

/-- The data of a packet and where it is copied. -/
def Sent.placed (sent : Sent) : Placed UInt8 :=
  ⟨sent.index * size sent.args, payload sent.args sent.index⟩

/-- The entry of the record for a packet. -/
def entry (host : ByteOrder) (place : Nat) (sent : Sent) : Placed UInt8 :=
  ⟨12 + 4 * place, Radix.bytes host 4 (sent.index + 1)⟩

/-- What is written for some packets, the first of them at a place of the
record. -/
def writes (host : ByteOrder) : Nat → List Sent → List (Placed UInt8)
  | _, [] => []
  | place, sent :: rest => sent.placed :: entry host place sent :: writes host (place + 1) rest

theorem writes_append (host : ByteOrder) (place : Nat) (first second : List Sent) :
    writes host place (first ++ second) =
      writes host place first ++ writes host (place + first.length) second := by
  induction first generalizing place with
  | nil => rfl
  | cons sent rest inductionHypothesis =>
      rw [List.cons_append, writes, inductionHypothesis, writes, List.length_cons,
        Nat.add_right_comm, Nat.add_assoc]
      rfl

theorem placed_mem_writes {host : ByteOrder} {place : Nat} {packets : List Sent} {sent : Sent}
    (member : sent ∈ packets) : sent.placed ∈ writes host place packets := by
  rcases List.append_of_mem member with ⟨before, after, rfl⟩
  rw [writes_append]
  exact List.mem_append_right _ List.mem_cons_self

theorem mem_writes {host : ByteOrder} {place : Nat} {packets : List Sent} {piece : Placed UInt8}
    (member : piece ∈ writes host place packets) :
    (∃ sent ∈ packets, piece = sent.placed) ∨
      ∃ later sent, place ≤ later ∧ piece = entry host later sent := by
  induction packets generalizing place with
  | nil => cases member
  | cons sent rest inductionHypothesis =>
      rw [writes, List.mem_cons, List.mem_cons] at member
      rcases member with rfl | rfl | member
      · exact .inl ⟨sent, List.mem_cons_self, rfl⟩
      · exact .inr ⟨place, sent, le_rfl, rfl⟩
      · rcases inductionHypothesis member with ⟨other, isOther, same⟩ | ⟨later, other, above, same⟩
        · exact .inl ⟨other, List.mem_cons_of_mem _ isOther, same⟩
        · exact .inr ⟨later, other, by omega, same⟩

/-- Packets of one call lie apart. -/
theorem placed_covers {sent : Sent} {index : Nat} (covers : sent.placed.Covers index) :
    index / size sent.args = sent.index := by
  rcases covers with ⟨above, below⟩
  have length := sent.payload_length
  change sent.index * size sent.args ≤ index at above
  change index < sent.index * size sent.args + (payload sent.args sent.index).length at below
  apply Nat.div_eq_of_lt_le above
  rw [Nat.succ_mul]
  omega

/-- A place before the entries to come is covered by at most one of the writes. -/
theorem writes_single {host : ByteOrder} {call : SendBufArgs} {packets : List Sent}
    (same : ∀ sent ∈ packets, sent.args = call) (distinct : (packets.map Sent.index).Nodup)
    {place index : Nat} (before : index < 12 + 4 * place) :
    (writes host place packets).Pairwise
      fun first second => first.Covers index → ¬ second.Covers index := by
  induction packets generalizing place with
  | nil => exact .nil
  | cons sent rest inductionHypothesis =>
      rw [List.map_cons, List.nodup_cons] at distinct
      have restSame := fun other member => same other (List.mem_cons_of_mem _ member)
      have free (later : Nat) (above : place ≤ later) (other : Sent) :
          ¬ (entry host later other).Covers index := by
        intro covers
        obtain ⟨starts, -⟩ := covers
        change 12 + 4 * later ≤ index at starts
        omega
      rw [writes, List.pairwise_cons, List.pairwise_cons]
      refine ⟨?_, ?_, inductionHypothesis restSame distinct.2 (by omega)⟩
      · intro piece member covers otherCovers
        rw [List.mem_cons] at member
        rcases member with rfl | member
        · exact free place le_rfl sent otherCovers
        · rcases mem_writes member with ⟨other, isOther, rfl⟩ | ⟨later, other, above, rfl⟩
          · have here := placed_covers covers
            have there := placed_covers otherCovers
            rw [restSame other isOther] at there
            rw [same sent List.mem_cons_self] at here
            exact distinct.1 (List.mem_map.mpr ⟨other, isOther, there.symm.trans here⟩)
          · exact free later (by omega) other otherCovers
      · intro piece _ covers
        exact absurd covers (free place le_rfl sent)

/-! ### The record -/

/-- The record holds the number of each packet, in host order, at its place in
the order of arrival. -/
def Recorded (host : ByteOrder) (packets : List Sent) (memory : Mem) : Prop :=
  ∀ place sent, packets[place]? = some sent →
    load32 host memory (12 + 4 * place) = UInt32.ofNat (sent.index + 1)

/-- Wherever the data of a later packet lies over an entry of the record, it holds
the byte of the entry. -/
def Survives (host : ByteOrder) (packets : List Sent) : Prop :=
  ∀ place sent, packets[place]? = some sent → ∀ later other, place < later →
    packets[later]? = some other → (entry host place sent).Matches other.placed

theorem load32_eq_iff {host : ByteOrder} {memory : Mem} {pointer number : Nat}
    (small : number < 2 ^ 32) :
    load32 host memory pointer = UInt32.ofNat number ↔
      memory.read pointer 4 = Radix.bytes host 4 number := by
  rw [load32]
  constructor
  · intro same
    have held := bytes_ofNat_four host (Memory.read_length memory pointer 4)
    rw [same, UInt32.toNat_ofNat_of_lt' small] at held
    exact held.symm
  · intro same
    rw [same, Radix.value_bytes_of_lt host (by exact small)]

/-- The data of later packets is all that is written over an entry. -/
theorem entry_matches_iff {host : ByteOrder} {packets : List Sent} {place : Nat} (sent : Sent) :
    (∀ piece ∈ writes host (place + 1) (packets.drop (place + 1)),
        (entry host place sent).Matches piece) ↔
      ∀ later other, place < later → packets[later]? = some other →
        (entry host place sent).Matches other.placed := by
  constructor
  · intro matched later other above isOther
    refine matched other.placed (placed_mem_writes (List.mem_iff_getElem?.mpr ?_))
    refine ⟨later - (place + 1), ?_⟩
    rw [List.getElem?_drop, Nat.add_sub_cancel' above, isOther]
  · intro matched piece member
    rcases mem_writes member with ⟨other, isOther, rfl⟩ | ⟨later, other, above, rfl⟩
    · rcases List.mem_iff_getElem?.mp isOther with ⟨index, isIndex⟩
      rw [List.getElem?_drop] at isIndex
      exact matched (place + 1 + index) other (by omega) isIndex
    · intro inner within behind below overlap
      simp only [entry, Radix.bytes_length] at within below overlap
      omega

theorem recorded_iff {host : ByteOrder} {call : SendBufArgs} {packets : List Sent}
    (same : ∀ sent ∈ packets, sent.args = call) (distinct : (packets.map Sent.index).Nodup)
    (memory : Mem) :
    Recorded host packets (paste memory (writes host 0 packets)) ↔ Survives host packets := by
  apply forall₃_congr
  intro place sent isSent
  rcases List.getElem?_eq_some_iff.mp isSent with ⟨below, isHere⟩
  have split : packets = packets.take place ++ sent :: packets.drop (place + 1) := by
    rw [← isHere, ← List.drop_eq_getElem_cons below, List.take_append_drop]
  have front : (packets.take place).length = place := List.length_take_of_le below.le
  have small : sent.index + 1 < 2 ^ 32 := by
    have isPacket := sent.isPacket.1
    have bound := sent.args.totalPackets.toNat_lt
    omega
  have all : paste memory (writes host 0 packets) =
      paste (((paste memory (writes host 0 (packets.take place))).write sent.placed.offset
        sent.placed.block).write (entry host place sent).offset (entry host place sent).block)
        (writes host (place + 1) (packets.drop (place + 1))) := by
    conv_lhs => rw [split]
    rw [writes_append, front, Nat.zero_add, paste_append]
    rfl
  have single (index : Nat) (covers : (entry host place sent).Covers index) :
      (writes host (place + 1) (packets.drop (place + 1))).Pairwise
        fun first second => first.Covers index → ¬ second.Covers index := by
    have ends := covers.2
    simp only [entry, Radix.bytes_length] at ends
    exact writes_single (fun other member => same other (List.mem_of_mem_drop member))
      (distinct.sublist ((List.drop_sublist _ _).map _)) (by omega)
  have survives := read_paste_written_iff ((paste memory (writes host 0 (packets.take place))).write
    sent.placed.offset sent.placed.block) (entry host place sent) single
  rw [load32_eq_iff small, all, ← entry_matches_iff sent, ← survives]
  simp only [entry, Radix.bytes_length]

/-! ### The run -/

/-- All packets of a call, the first one first. -/
structure Delivery (call : SendBufArgs) where
  first : Sent
  others : List Sent
  same : ∀ sent ∈ first :: others, sent.args = call
  all : ((first :: others).map Sent.index).Perm (List.range call.totalPackets.toNat)
  begins : first.index = 0

/-- The variables while packets of a call arrive, after some of them. -/
structure Running (call : SendBufArgs) (count : Nat) (state : State) : Prop where
  past : state.veryFirstRead = false
  kept : state.dumpTick = false
  tick : state.prevTick = call.tick
  source : state.srcId = call.dataId
  counted : state.pktCount = UInt32.ofNat count

/-- A first packet begins the buffer. -/
theorem plan_begins {state : State} {header : ReFields} (data : PacketData)
    (first : state.veryFirstRead = true) (kept : state.dumpTick = false)
    (begins : header.offset = 0) :
    ∃ ready, plan state header data = .copy ready ∧ ready.dumpTick = false ∧
      ready.srcId = header.dataId ∧ ready.pktCount = 0 ∧ ready.totalPkts = data.totalPkts := by
  by_cases new : header.tick = state.prevTick
  · exact ⟨state.parsed header data, by simp [plan, planTick, State.parsed, first, kept, new],
      by simp [State.parsed, first, kept]⟩
  · exact ⟨{ state.parsed header data with dumpTick := false },
      by simp [plan, planTick, State.parsed, first, begins, new], by simp [State.parsed, first]⟩

/-- A packet of the tick and source under way is copied. -/
theorem plan_continues {state : State} {header : ReFields} (data : PacketData)
    (past : state.veryFirstRead = false) (kept : state.dumpTick = false)
    (source : header.dataId = state.srcId) (tick : header.tick = state.prevTick) :
    ∃ ready, plan state header data = .copy ready ∧ ready.veryFirstRead = false ∧
      ready.dumpTick = false ∧ ready.srcId = state.srcId ∧ ready.pktCount = state.pktCount ∧
      ready.totalPkts = data.totalPkts ∧ ready.dataBuf = state.dataBuf := by
  refine ⟨{ state with length := header.length, totalPkts := data.totalPkts }, ?_, past, kept,
    rfl, rfl, rfl, rfl⟩
  simp [plan, planTick, State.parsed, past, kept, source, tick]

/-- The returned buffer is the one the copies have filled. -/
theorem exit_dataBuf {args : ReassembledArgs} {state : State} {header : ReFields}
    {outcome : ReassembledOutcome}
    (exits : state.exit (Complete.finish args.toCompleteArgs state.toState header) =
      .returned outcome) : outcome.dataBuf = state.dataBuf := by
  unfold Complete.finish at exits
  cases stats : state.stats with
  | none =>
      simp only [stats, State.exit, ReassembledExit.returned.injEq] at exits
      rw [← exits]
  | some counters =>
      simp only [stats] at exits
      split at exits
      · cases exits
      · simp only [State.exit, ReassembledExit.returned.injEq] at exits
        rw [← exits]

/-- What the receiver finds in a packet of a call whose packets are long enough. -/
theorem received_delivered {call : SendBufArgs} {sent : Sent} (same : sent.args = call)
    (long : ∀ index < call.totalPackets.toNat, 12 ≤ (payload call index).length) (state : State)
    (args : ReassembledArgs) :
    Carries call (cut call sent.index).1 ((state.received sent.bytes).header args) ∧
      12 ≤ (payload call sent.index).length ∧
      ((state.received sent.bytes).description args).totalPkts = call.totalPackets := by
  subst same
  have longHere := long sent.index sent.isPacket.1
  exact ⟨header_received state sent args, longHere,
    congrArg PacketData.totalPkts (description_received state sent args longHere)⟩

/-- A packet that is copied is written with its entry, and the call ends with the
last one. -/
theorem round_delivered {args : ReassembledArgs} {call : SendBufArgs} {state ready : State}
    {sent : Sent} (same : sent.args = call) (long : 12 ≤ (payload call sent.index).length)
    (planned : plan (state.received sent.bytes) ((state.received sent.bytes).header args)
      ((state.received sent.bytes).description args) = .copy ready)
    (kept : ready.dumpTick = false) (source : ready.srcId = call.dataId) {count : Nat}
    (counted : ready.pktCount = UInt32.ofNat count) (total : ready.totalPkts = call.totalPackets)
    (below : count < call.totalPackets.toNat) :
    ∃ after, Running call (count + 1) after ∧
      after.dataBuf = paste (ready.expand args call.dataLen).dataBuf
        [sent.placed, entry args.host count sent] ∧
      round args state sent.recv =
        if call.totalPackets.toNat ≤ count + 1 then
          .leave (after.exit (Complete.finish args.toCompleteArgs after.toState
            ((state.received sent.bytes).header args)))
        else .again after := by
  subst same
  have small : sent.args.totalPackets.toNat < 2 ^ 32 := sent.args.totalPackets.toNat_lt
  have carries := header_received state sent args
  have number := congrArg PacketData.pktSequence
    (description_received state sent args long)
  rcases expand_same ready args ((state.received sent.bytes).header args).length with
    ⟨samePktCount, sameTotal, sameDump, sameSource⟩
  have exactCount : ready.pktCount.toNat = count := by
    rw [counted]
    exact UInt32.toNat_ofNat_of_lt' (by show count < 2 ^ 32; omega)
  have place := (sent.recordPlace (by rw [exactCount]; exact below)).2
  refine ⟨(ready.expand args ((state.received sent.bytes).header args).length).copied args.host
    ((state.received sent.bytes).header args)
    ((state.received sent.bytes).description args).pktSequence (payload sent.args sent.index),
    ?_, ?_, ?_⟩
  · refine ⟨rfl, sameDump.trans kept, carries.tick, sameSource.trans source, ?_⟩
    show _ + 1 = _
    rw [samePktCount, counted, UInt32.ofNat_add]
    rfl
  · have places : (ready.expand args ((state.received sent.bytes).header args).length).recordPlace =
        12 + 4 * count := by
      rw [State.recordPlace, samePktCount, ← State.recordPlace, place, exactCount]
    have index : (UInt32.ofNat (sent.index + 1)).toNat = sent.index + 1 := by
      have isPacket := sent.isPacket.1
      exact UInt32.toNat_ofNat_of_lt' (by show sent.index + 1 < 2 ^ 32; omega)
    have offset : ((state.received sent.bytes).header args).offset.toNat =
        sent.index * size sent.args := by
      rw [carries.offset, sent.offset_toNat]
    show store32 args.host _ _ _ = _
    rw [places, number, offset, carries.length, store32, index]
    rfl
  · have done : ((ready.expand args ((state.received sent.bytes).header args).length).pktCount + 1 ≥
        (ready.expand args ((state.received sent.bytes).header args).length).totalPkts) ↔
        sent.args.totalPackets.toNat ≤ count + 1 := by
      have next : (UInt32.ofNat (count + 1)).toNat = count + 1 :=
        UInt32.toNat_ofNat_of_lt' (by show count + 1 < 2 ^ 32; omega)
      rw [samePktCount, sameTotal, total, counted, ge_iff_le, UInt32.le_iff_toNat_le,
        show UInt32.ofNat count + 1 = UInt32.ofNat (count + 1) from (UInt32.ofNat_add count 1).symm,
        next]
    rw [round_sent, handle, planned]
    exact if_congr done rfl rfl

/-- A call that has copied one packet goes on with the others, if there are
any. -/
theorem feed_delivered {args : ReassembledArgs} {call : SendBufArgs} {sent : Sent}
    {rest : List Sent} {count : Nat} (all : count + (sent :: rest).length = call.totalPackets.toNat)
    {state after : State} {header : ReFields}
    (step : round args state sent.recv =
      if call.totalPackets.toNat ≤ count + 1 then
        .leave (after.exit (Complete.finish args.toCompleteArgs after.toState header))
      else .again after)
    (later : rest ≠ [] → ∃ exit, feed (round args) after (rest.map Sent.recv) = .left exit [] ∧
      ∀ outcome, exit = .returned outcome →
        outcome.dataBuf = paste after.dataBuf (writes args.host (count + 1) rest)) :
    ∃ exit, feed (round args) state ((sent :: rest).map Sent.recv) = .left exit [] ∧
      ∀ outcome, exit = .returned outcome →
        outcome.dataBuf = paste after.dataBuf (writes args.host (count + 1) rest) := by
  rw [List.length_cons] at all
  rw [List.map_cons]
  cases rest with
  | nil =>
      rw [if_pos (by rw [← all]; exact le_rfl)] at step
      rw [feed_cons_of_leave step]
      exact ⟨_, rfl, fun outcome exits => exit_dataBuf exits⟩
  | cons next others =>
      rw [List.length_cons] at all
      rw [if_neg (by omega)] at step
      rw [feed_cons_of_again step]
      exact later (List.cons_ne_nil next others)

/-- The rest of the packets completes the buffer. -/
theorem feed_running {args : ReassembledArgs} {call : SendBufArgs} {packets : List Sent}
    (same : ∀ sent ∈ packets, sent.args = call)
    (long : ∀ index < call.totalPackets.toNat, 12 ≤ (payload call index).length)
    (nonempty : packets ≠ []) {count : Nat} (all : count + packets.length = call.totalPackets.toNat)
    {state : State} (running : Running call count state) :
    ∃ exit, feed (round args) state (packets.map Sent.recv) = .left exit [] ∧
      ∀ outcome, exit = .returned outcome →
        outcome.dataBuf = paste state.dataBuf (writes args.host count packets) := by
  induction packets generalizing count state with
  | nil => exact absurd rfl nonempty
  | cons sent rest inductionHypothesis =>
      have isCall := same sent List.mem_cons_self
      rcases received_delivered isCall long state args with ⟨carries, longHere, total⟩
      rcases @plan_continues (state.received sent.bytes) _
        ((state.received sent.bytes).description args) running.past running.kept
        (carries.dataId.trans running.source.symm) (carries.tick.trans running.tick.symm) with
        ⟨ready, planned, past, kept, source, counted, totalPkts, buffer⟩
      have counts := all
      rw [List.length_cons] at counts
      rcases round_delivered isCall longHere planned kept (source.trans running.source)
        (counted.trans running.counted) (totalPkts.trans total) (by omega) with
        ⟨after, runningAfter, dataBuf, step⟩
      rw [expand_of_not_first ready past, buffer] at dataBuf
      have filled : paste state.dataBuf (writes args.host count (sent :: rest)) =
          paste after.dataBuf (writes args.host (count + 1) rest) := by
        rw [dataBuf]
        rfl
      rw [filled]
      exact feed_delivered all step fun more =>
        inductionHypothesis (fun other member => same other (List.mem_cons_of_mem _ member)) more
          (by omega) runningAfter

/-- When all packets of a call arrive, each of them long enough for its words and
the first one first, the call ends with the last one. The record in the buffer
it returns is that of the arrivals exactly when every packet that arrives after
another and lies over its entry holds the bytes of the entry there. -/
theorem getReassembledBuffer_recorded_iff (args : ReassembledArgs) {call : SendBufArgs}
    (delivery : Delivery call)
    (long : ∀ index < call.totalPackets.toNat, 12 ≤ (payload call index).length) :
    ∃ exit, getReassembledBuffer args ((delivery.first :: delivery.others).map Sent.recv) =
        .left exit [] ∧
      ∀ outcome, exit = .returned outcome →
        (Recorded args.host (delivery.first :: delivery.others) outcome.dataBuf ↔
          Survives args.host (delivery.first :: delivery.others)) := by
  rcases delivery with ⟨first, others, same, all, begins⟩
  dsimp only
  have isCall := same first List.mem_cons_self
  have distinct : ((first :: others).map Sent.index).Nodup := all.nodup_iff.mpr List.nodup_range
  have count := all.length_eq
  rw [List.length_map, List.length_cons, List.length_range] at count
  rcases received_delivered isCall long (start args) args with ⟨carries, longHere, total⟩
  have offset : (((start args).received first.bytes).header args).offset = 0 := by
    rw [carries.offset, begins]
    rfl
  rcases @plan_begins ((start args).received first.bytes) _
    (((start args).received first.bytes).description args) rfl rfl offset with
    ⟨ready, planned, kept, source, noPackets, totalPkts⟩
  have counted : ready.pktCount = UInt32.ofNat 0 := noPackets
  rcases round_delivered isCall longHere planned kept (source.trans carries.dataId) counted
    (totalPkts.trans total) (by omega) with ⟨after, running, dataBuf, step⟩
  have returns : ∃ exit, getReassembledBuffer args ((first :: others).map Sent.recv) =
      .left exit [] ∧ ∀ outcome, exit = .returned outcome →
        outcome.dataBuf = paste (ready.expand args call.dataLen).dataBuf
          (writes args.host 0 (first :: others)) := by
    have filled : paste (ready.expand args call.dataLen).dataBuf
        (writes args.host 0 (first :: others)) =
          paste after.dataBuf (writes args.host 1 others) := by
      rw [dataBuf]
      rfl
    rw [getReassembledBuffer, filled]
    exact feed_delivered (by rw [List.length_cons]; omega) step fun more =>
      feed_running (fun other member => same other (List.mem_cons_of_mem _ member)) long more
        (by omega) running
  rcases returns with ⟨exit, left, held⟩
  refine ⟨exit, left, fun outcome exits => ?_⟩
  rw [held outcome exits]
  exact recorded_iff same distinct _

/-- Two packets of twelve bytes. -/
def sampleSend : SendBufArgs :=
  { Packetize.Grpc.sampleArgs with
    dataLen := 24
    maxUdpPayload := 12
    tick := 8 }

/-- The two packets in order. -/
def inOrder : Delivery sampleSend where
  first := .ofCall sampleSend 0 (by decide) (by decide) (by decide)
  others := [.ofCall sampleSend 1 (by decide) (by decide) (by decide)]
  same := by
    intro sent member
    simp only [List.mem_cons, List.not_mem_nil, or_false] at member
    rcases member with rfl | rfl <;> rfl
  all := List.Perm.refl _
  begins := rfl

theorem getReassembledBuffer_recorded_iff_sample :
    ∃ exit, getReassembledBuffer sampleCall ((inOrder.first :: inOrder.others).map Sent.recv) =
        .left exit [] ∧
      ∀ outcome, exit = .returned outcome →
        (Recorded .little (inOrder.first :: inOrder.others) outcome.dataBuf ↔
          Survives .little (inOrder.first :: inOrder.others)) :=
  getReassembledBuffer_recorded_iff sampleCall inOrder (by decide)

/-- The data of the second packet goes over the entry of the first. -/
theorem not_recorded_inOrder :
    ∃ outcome,
      getReassembledBuffer sampleCall ((inOrder.first :: inOrder.others).map Sent.recv) =
        .left (.returned outcome) [] ∧ outcome.ret = 24 ∧
      ¬ Recorded .little (inOrder.first :: inOrder.others) outcome.dataBuf :=
  ⟨_, rfl, rfl, fun recorded => absurd (recorded 0 _ rfl) (by decide)⟩

end Dift.Assemble.Reassembled
