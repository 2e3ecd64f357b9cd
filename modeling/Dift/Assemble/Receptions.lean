import Dift.Assemble.Records

/-!
Owns how a call of `getReassembledBuffer` builds one buffer: the packets of one
call of `sendPacketizedBuf` that arrive, with some missing and out of order. When
the packet at offset 0 is taken, so are all that follow it, every copy of theirs
stays inside of the vector, and the last one that is there ends the call exactly
if none is missing. What is built holds the data of the packets, except where the
record of arrivals was written over it.
-/

namespace Dift.Assemble.Reassembled

open Dift.Foundation
open Dift.Wire
open Dift.Packetize.Grpc

/-! ### What arrives -/

/-- The packets of one call of `sendPacketizedBuf` that arrive, in order and
without duplicates. All packets of the call are long enough for their words. -/
structure Reception (dataId : UInt16) where
  call : SendBufArgs
  first : Sent
  others : List Sent
  same : ∀ sent ∈ first :: others, sent.args = call
  distinct : ((first :: others).map Sent.index).Nodup
  source : call.dataId = dataId
  described : ∀ index < call.totalPackets.toNat, 12 ≤ (payload call index).length

namespace Reception

variable {dataId : UInt16} (reception : Reception dataId)

def packets : List Sent := reception.first :: reception.others

def total : Nat := reception.call.totalPackets.toNat

/-- The packet at offset 0 arrives first. -/
def Begun : Prop := reception.first.index = 0

instance : Decidable reception.Begun :=
  inferInstanceAs (Decidable (reception.first.index = 0))

/-- Every packet of the buffer arrives. -/
def AllReceived : Prop :=
  (reception.packets.map Sent.index).Perm (List.range reception.total)

instance : Decidable reception.AllReceived :=
  inferInstanceAs (Decidable (List.Perm _ _))

/-- The buffer is completely received, starting with its packet at offset 0. -/
def Whole : Prop := reception.Begun ∧ reception.AllReceived

instance : Decidable reception.Whole :=
  inferInstanceAs (Decidable (_ ∧ _))

variable {reception}

theorem index_lt {sent : Sent} (member : sent ∈ reception.packets) :
    sent.index < reception.total := by
  rw [total, ← reception.same sent member]
  exact sent.isPacket.1

theorem length_le (reception : Reception dataId) :
    reception.packets.length ≤ reception.total := by
  rw [← List.length_map Sent.index]
  apply length_le_of_nodup_of_lt reception.distinct
  intro index isIndex
  obtain ⟨sent, member, rfl⟩ := List.mem_map.mp isIndex
  exact index_lt member

/-- All packets arrive exactly when so many do. -/
theorem allReceived_iff : reception.AllReceived ↔ reception.total ≤ reception.packets.length := by
  constructor
  · intro all
    have same := all.length_eq
    rw [List.length_map, List.length_range] at same
    exact same.ge
  · intro many
    have subset : reception.packets.map Sent.index ⊆ List.range reception.total := by
      intro index isIndex
      obtain ⟨sent, member, rfl⟩ := List.mem_map.mp isIndex
      exact List.mem_range.mpr (index_lt member)
    apply (List.subperm_of_subset reception.distinct subset).perm_of_length_le
    rwa [List.length_range, List.length_map]

theorem total_lt (reception : Reception dataId) : reception.total < 2 ^ 32 :=
  reception.call.totalPackets.toNat_lt

/-- All packets together are as long as the buffer. -/
theorem weight_of_allReceived (all : reception.AllReceived) :
    weight (reception.packets.map Sent.placed) = reception.call.dataLen.toNat := by
  have inRange : 1 ≤ reception.call.maxUdpPayload ∧ reception.call.maxUdpPayload ≤ 9964 := by
    rw [← reception.same reception.first List.mem_cons_self]
    exact reception.first.inRange
  have even := Packetize.Grpc.payload_length inRange
  have sizes := reception.first.sizes
  rw [reception.same reception.first List.mem_cons_self] at sizes
  obtain ⟨least, -, -, count, -⟩ := sizes
  have lengths : reception.packets.map (fun sent => sent.placed.block.length) =
      (reception.packets.map Sent.index).map fun index =>
        (payload reception.call index).length := by
    rw [List.map_map]
    apply List.map_congr_left
    intro sent member
    rw [Function.comp_apply, ← reception.same sent member]
    rfl
  have enough : reception.call.dataLen.toNat ≤ reception.total * size reception.call := by
    rw [total, count, Nat.mul_comm]
    exact (ceilDiv_le_iff_le_mul (by omega)).mp le_rfl
  have flat := flatten_even_length even reception.total
  rw [List.length_flatten, List.map_map, Nat.min_eq_right enough] at flat
  rw [weight, List.map_map]
  show (reception.packets.map fun sent => sent.placed.block.length).sum = _
  rw [lengths, (all.map _).sum_eq]
  exact flat

end Reception

variable {args : ReassembledArgs} {dataId : UInt16} {reception : Reception dataId}
  {books : List (Reception dataId)} {taken : List Sent} {sent : Sent} {state : State}

/-! ### What a buffer holds -/

/-- The data of a packet stands in the buffer, except where an entry of the
record was written with it or after it; there the entry stands. -/
structure Restores (host : ByteOrder) (packets : List Sent) (memory : Mem) : Prop where
  data : ∀ (place : Nat) (sent : Sent), packets[place]? = some sent → ∀ index,
    (below : index < sent.placed.block.length) →
      sent.placed.offset + index < 12 + 4 * place ∨
        12 + 4 * packets.length ≤ sent.placed.offset + index →
      memory (sent.placed.offset + index) = sent.placed.block[index]
  record : ∀ (place : Nat) (sent : Sent), packets[place]? = some sent →
    ∀ (later : Nat) (other : Sent), packets[later]? = some other → place ≤ later → ∀ index,
      (below : index < (entry host later other).block.length) →
        sent.placed.Covers ((entry host later other).offset + index) →
        memory ((entry host later other).offset + index) = (entry host later other).block[index]

/-- What is written last at a place stands there. -/
theorem paste_last (memory : Mem) (before : List (Placed UInt8)) {piece : Placed UInt8}
    {after : List (Placed UInt8)} {index : Nat} (below : index < piece.block.length)
    (free : ∀ other ∈ after, ¬ other.Covers (piece.offset + index)) :
    paste memory (before ++ piece :: after) (piece.offset + index) = piece.block[index] := by
  rw [paste_append, paste_cons, paste_uncovered _ free]
  exact Memory.write_inside _ _ _ below

theorem entry_covers {host : ByteOrder} {place index : Nat} {sent : Sent} :
    (entry host place sent).Covers index ↔ 12 + 4 * place ≤ index ∧ index < 12 + 4 * place + 4 := by
  unfold Placed.Covers entry
  rw [Radix.bytes_length]

/-- The packets split at one of them. -/
theorem split_at {packets : List Sent} {place : Nat} (isSent : packets[place]? = some sent) :
    ∃ before after, packets = before ++ sent :: after ∧ before.length = place := by
  rcases List.getElem?_eq_some_iff.mp isSent with ⟨below, rfl⟩
  refine ⟨packets.take place, packets.drop (place + 1), ?_, List.length_take_of_le below.le⟩
  rw [← List.drop_eq_getElem_cons below, List.take_append_drop]

/-- Other packets of a call lie elsewhere. -/
theorem not_covers_of_ne {call : SendBufArgs} {other : Sent} (same : sent.args = call)
    (otherSame : other.args = call) (differs : other.index ≠ sent.index) {index : Nat}
    (covers : sent.placed.Covers index) : ¬ other.placed.Covers index := by
  intro otherCovers
  have here := placed_covers covers
  have there := placed_covers otherCovers
  rw [same] at here
  rw [otherSame] at there
  exact differs (there.symm.trans here)

/-- Later packets and their entries leave a place alone that an earlier packet
covers, before the entries to come or behind them all. -/
theorem writes_free {host : ByteOrder} {call : SendBufArgs} {after : List Sent} {place index : Nat}
    (same : ∀ other ∈ after, other.args = call) (isCall : sent.args = call)
    (distinct : sent.index ∉ after.map Sent.index) (covers : sent.placed.Covers index)
    (apart : index < 12 + 4 * place ∨ 12 + 4 * (place + after.length) ≤ index) :
    ∀ piece ∈ writes host place after, ¬ piece.Covers index := by
  induction after generalizing place with
  | nil => exact fun piece member => nomatch member
  | cons next rest inductionHypothesis =>
      rw [List.map_cons, List.mem_cons, not_or] at distinct
      rw [List.length_cons] at apart
      intro piece member
      rw [writes, List.mem_cons, List.mem_cons] at member
      rcases member with rfl | rfl | member
      · exact not_covers_of_ne isCall (same next List.mem_cons_self) (Ne.symm distinct.1) covers
      · rw [entry_covers]
        omega
      · exact inductionHypothesis (fun other isOther => same other (List.mem_cons_of_mem _ isOther))
          distinct.2 (by omega) piece member

theorem restores_paste {host : ByteOrder} {call : SendBufArgs} {packets : List Sent}
    (same : ∀ sent ∈ packets, sent.args = call) (distinct : (packets.map Sent.index).Nodup)
    (memory : Mem) : Restores host packets (paste memory (writes host 0 packets)) where
  data := by
    intro place sent isSent index below apart
    obtain ⟨before, after, rfl, rfl⟩ := split_at isSent
    rw [List.map_append, List.map_cons, List.nodup_append, List.nodup_cons] at distinct
    have covers : sent.placed.Covers (sent.placed.offset + index) := ⟨by omega, by omega⟩
    rw [List.length_append, List.length_cons] at apart
    rw [writes_append, Nat.zero_add, writes]
    apply paste_last _ _ below
    intro piece member
    rcases List.mem_cons.mp member with rfl | later
    · rw [entry_covers]
      omega
    · apply writes_free (fun other isOther => same other (by simp [isOther])) (same sent (by simp))
        distinct.2.1.1 covers (by omega) piece later
  record := by
    intro place sent isSent later other isOther notBefore index below covers
    obtain ⟨before, after, rfl, rfl⟩ := split_at isOther
    have inside := below
    rw [entry, Radix.bytes_length] at inside
    -- The packet that covers the place is not among those after the entry.
    have notAfter : sent.index ∉ after.map Sent.index := by
      intro isAfter
      rw [List.map_append, List.map_cons, List.nodup_append, List.nodup_cons] at distinct
      rcases notBefore.lt_or_eq with isBefore | rfl
      · rw [List.getElem?_append_left isBefore] at isSent
        exact distinct.2.2 _ (List.mem_map_of_mem (List.mem_of_getElem? isSent)) _
          (List.mem_cons_of_mem _ isAfter) rfl
      · rw [List.getElem?_append_right le_rfl, Nat.sub_self, List.getElem?_cons_zero,
          Option.some.injEq] at isSent
        subst isSent
        exact distinct.2.1.1 isAfter
    rw [writes_append, Nat.zero_add, writes, List.append_cons]
    apply paste_last _ _ below
    apply writes_free (fun other isOther => same other (by simp [isOther]))
      (same sent (List.mem_of_getElem? isSent)) notAfter covers
    left
    show 12 + 4 * before.length + index < _
    omega

/-! ### What a packet leads to -/

theorem plan_first (state : State) (header : ReFields) (data : PacketData)
    (first : state.veryFirstRead = true) :
    plan state header data = planTick { state with
      totalBytesRead := 0
      pktCount := 0
      srcId := header.dataId
      length := header.length
      totalPkts := data.totalPkts } state.length state.totalPkts header := by
  rw [plan, if_neg (by rw [first]; exact fun foreign => Bool.noConfusion foreign.1), State.parsed,
    if_pos first]

/-- After a first read a packet of the same source goes on. -/
theorem plan_past (state : State) {header : ReFields} (data : PacketData)
    (past : state.veryFirstRead = false) (same : header.dataId = state.srcId) :
    plan state header data =
      planTick { state with length := header.length, totalPkts := data.totalPkts } state.length
        state.totalPkts header := by
  rw [plan, if_neg (fun foreign => foreign.2 same), State.parsed,
    if_neg (by rw [past]; exact Bool.false_ne_true)]

section PlanTick

variable (state : State) {prevLength prevTotalPkts : UInt32} {header : ReFields}

/-- A new tick whose first packet is missing is dumped. -/
theorem planTick_missing (new : header.tick ≠ state.prevTick) (missing : header.offset ≠ 0) :
    planTick state prevLength prevTotalPkts header = .pass { state with
      veryFirstRead := true
      dumpTick := true
      prevTick := header.tick
      discardedPackets := state.discardedPackets + state.totalPkts.toNat
      discardedBytes := state.discardedBytes + header.length.toNat
      discardedBufs := state.discardedBufs + 1 } := by
  rw [planTick, if_pos new, if_pos missing]

theorem planTick_begin (new : header.tick ≠ state.prevTick) (begun : header.offset = 0)
    (first : state.veryFirstRead = true) :
    planTick state prevLength prevTotalPkts header = .copy { state with dumpTick := false } := by
  rw [planTick, if_pos new, if_neg (not_not.mpr begun), if_pos first]

/-- A new tick that begins discards the unfinished one. -/
theorem planTick_replace (new : header.tick ≠ state.prevTick) (begun : header.offset = 0)
    (past : state.veryFirstRead = false) :
    planTick state prevLength prevTotalPkts header = .copy { state with
      dumpTick := false
      pktCount := 0
      totalBytesRead := 0
      srcId := header.dataId
      discardedPackets := state.discardedPackets + prevTotalPkts.toNat
      discardedBytes := state.discardedBytes + prevLength.toNat
      discardedBufs := state.discardedBufs + 1 } := by
  rw [planTick, if_pos new, if_neg (not_not.mpr begun), if_neg (by rw [past]; exact
    Bool.false_ne_true)]

theorem planTick_dumped (same : header.tick = state.prevTick) (dumps : state.dumpTick = true) :
    planTick state prevLength prevTotalPkts header =
      .pass { state with veryFirstRead := true } := by
  rw [planTick, if_neg (not_not.mpr same), if_pos dumps]

theorem planTick_same (same : header.tick = state.prevTick) (kept : state.dumpTick = false) :
    planTick state prevLength prevTotalPkts header = .copy state := by
  rw [planTick, if_neg (not_not.mpr same), if_neg (by rw [kept]; exact Bool.false_ne_true)]

end PlanTick

/-! ### Building one buffer -/

/-- What a call has discarded, and the vector it has. -/
structure Booked (args : ReassembledArgs) (books : List (Reception dataId)) (state : State) :
    Prop where
  bufs : state.discardedBufs = books.length
  bytes : state.discardedBytes = (books.map fun one => one.call.dataLen.toNat).sum
  packets : state.discardedPackets = (books.map Reception.total).sum
  stats : state.stats = args.stats
  known : state.bufLen ≤ state.capacity
  grown : args.bufLen ≤ state.capacity

/-- The variables before a packet of the buffer is copied, when some are there. -/
structure Ready (args : ReassembledArgs) (reception : Reception dataId)
    (books : List (Reception dataId)) (taken : List Sent) (state : State) : Prop extends
    Booked args books state where
  kept : state.dumpTick = false
  source : state.srcId = dataId
  length : state.length = reception.call.dataLen
  total : state.totalPkts = reception.call.totalPackets
  counted : state.pktCount = UInt32.ofNat taken.length
  read : state.totalBytesRead = weight (taken.map Sent.placed)
  held : ∃ before, state.dataBuf = paste before (writes args.host 0 taken)
  later : taken ≠ [] → state.veryFirstRead = false
  room : state.veryFirstRead = false → reception.call.dataLen.toNat ≤ state.capacity

/-- The variables after a packet of the buffer was copied. -/
structure Building (args : ReassembledArgs) (reception : Reception dataId)
    (books : List (Reception dataId)) (taken : List Sent) (state : State) : Prop extends
    Ready args reception books taken state where
  past : state.veryFirstRead = false
  current : state.prevTick = reception.call.tick

/-- The check of the capacity makes room for the buffer. -/
theorem Ready.expand (ready : Ready args reception books taken state) :
    Ready args reception books taken (state.expand args reception.call.dataLen) ∧
      reception.call.dataLen.toNat ≤ (state.expand args reception.call.dataLen).capacity := by
  cases first : state.veryFirstRead with
  | false =>
      rw [expand_of_not_first state first]
      exact ⟨ready, ready.room first⟩
  | true =>
      have room : reception.call.dataLen.toNat ≤
          (state.expand args reception.call.dataLen).capacity :=
        expand_capacity state ready.known first
      have known : (state.expand args reception.call.dataLen).bufLen ≤
          (state.expand args reception.call.dataLen).capacity :=
        expand_known state ready.known
      have isNil : taken = [] := by
        by_contra notNil
        rw [ready.later notNil] at first
        cases first
      subst isNil
      refine ⟨?_, room⟩
      have grown : args.bufLen ≤ (state.expand args reception.call.dataLen).capacity := by
        have before := ready.grown
        unfold State.expand State.reserve at room ⊢
        split_ifs at room ⊢ with more fits
        · exact before
        · omega
        · exact before
      unfold State.expand State.reserve at room known grown ⊢
      split_ifs at room known grown ⊢ with more fits
      · exact { ready with known := known, grown := grown, room := fun _ => room }
      · exact { ready with
          known := known
          grown := grown
          held := ⟨_, rfl⟩
          room := fun _ => room }
      · exact ready

/-- The packet of the buffer comes as far as the copies. -/
def Takes (args : ReassembledArgs) (reception : Reception dataId)
    (books : List (Reception dataId)) (taken : List Sent) (state : State) (sent : Sent) : Prop :=
  ∃ ready, plan (state.received sent.bytes) ((state.received sent.bytes).header args)
      ((state.received sent.bytes).description args) = .copy ready ∧
    Ready args reception books taken ready

/-- What the call finds in a packet of the buffer. -/
theorem received_member (member : sent ∈ reception.packets) (state : State)
    (args : ReassembledArgs) :
    Carries reception.call (cut reception.call sent.index).1
        ((state.received sent.bytes).header args) ∧
      (state.received sent.bytes).description args =
        ⟨reception.call.backendTime, reception.call.totalPackets, UInt32.ofNat (sent.index + 1)⟩ := by
  have same := reception.same sent member
  have long := reception.described sent.index (Reception.index_lt member)
  rw [← same] at long ⊢
  exact ⟨header_received state sent args, description_received state sent args long⟩

/-- The entries of the record end inside of the buffer, but for the one of a
buffer of less than 16 bytes. -/
theorem entry_le {count capacity : Nat} (few : count < reception.total) (least : 16 ≤ capacity)
    (room : reception.call.dataLen.toNat ≤ capacity) : 12 + 4 * count + 4 ≤ capacity := by
  have sizes := reception.first.sizes
  have inRange := reception.first.inRange
  rw [reception.same reception.first List.mem_cons_self] at sizes inRange
  obtain ⟨atLeast, -, -, total, -⟩ := sizes
  rw [Reception.total, total, lt_iff_lt_of_le_iff_le (ceilDiv_le_iff_le_mul (by omega))] at few
  have twelve : 12 * count ≤ size reception.call * count := Nat.mul_le_mul_right _ atLeast
  by_cases isZero : count = 0
  · omega
  · have second : 1 < reception.total := by
      rw [Reception.total, total, lt_iff_lt_of_le_iff_le (ceilDiv_le_iff_le_mul (by omega))]
      have one : size reception.call * 1 ≤ size reception.call * count :=
        Nat.mul_le_mul_left _ (by omega)
      omega
    have long := reception.described 1 second
    rw [Packetize.Grpc.payload_length inRange] at long
    omega

section Taking

variable (takes : Takes args reception books taken state sent) (member : sent ∈ reception.packets)
  (few : taken.length < reception.total)

include takes member few

/-- Both copies of a packet that is taken stay inside of the vector. -/
theorem takes_inside (least : 16 ≤ args.bufLen) : CopiesInside args state sent.recv := by
  obtain ⟨ready, planned, isReady⟩ := takes
  obtain ⟨carries, -⟩ := received_member member state args
  have same := reception.same sent member
  obtain ⟨expanded, room⟩ := isReady.expand
  have count : ready.pktCount.toNat = taken.length := by
    have small := reception.total_lt
    rw [isReady.counted]
    exact UInt32.toNat_ofNat_of_lt' (by show taken.length < 2 ^ 32; omega)
  have counted : ready.pktCount.toNat < sent.args.totalPackets.toNat := by
    rw [count, same]
    exact few
  have long : ¬ (sent.bytes.take 9100).length < reHeaderBytes := by
    rw [sent.bytes_take, sent.bytes_length]
    omega
  intro copy copies
  simp only [roundCopy, Sent.recv, if_neg long, planned, Option.some.injEq] at copies
  subst copies
  have isCapacity : (Copy.capacity ⟨ready, (state.received sent.bytes).header args,
      (state.received sent.bytes).payload sent.bytes⟩ args) =
        (ready.expand args reception.call.dataLen).capacity := by
    rw [Copy.capacity, carries.length]
  have ends : Carries sent.args (cut sent.args sent.index).1
      ((state.received sent.bytes).header args) := by
    rw [same]
    exact carries
  have dataInside := (sent.ends ends counted).1
  rw [isCapacity, Copy.dataEnd, Copy.recordEnd, payload_received state sent]
  constructor
  · rw [carries.length] at dataInside
    exact dataInside.trans room
  · rw [(sent.recordPlace counted).2, count]
    exact entry_le few (least.trans expanded.grown) room

/-- A packet that is taken is written with its entry, and the call ends with the
last one. -/
theorem takes_step :
    ∃ after header, Building args reception books (taken ++ [sent]) after ∧
      header.tick = reception.call.tick ∧ header.dataId = dataId ∧
      round args state sent.recv =
        if reception.total ≤ taken.length + 1 then
          .leave (after.exit (Complete.finish args.toCompleteArgs after.toState header))
        else .again after := by
  obtain ⟨ready, planned, isReady⟩ := takes
  obtain ⟨carries, described⟩ := received_member member state args
  have same := reception.same sent member
  have small := reception.total_lt
  obtain ⟨expanded, room⟩ := isReady.expand
  have next : (UInt32.ofNat taken.length) + 1 = UInt32.ofNat (taken.length + 1) :=
    (UInt32.ofNat_add taken.length 1).symm
  refine ⟨(ready.expand args reception.call.dataLen).copied args.host
    ((state.received sent.bytes).header args) (UInt32.ofNat (sent.index + 1))
    (payload sent.args sent.index), (state.received sent.bytes).header args, ?_, carries.tick,
    carries.dataId.trans reception.source, ?_⟩
  · have count : (ready.expand args reception.call.dataLen).pktCount.toNat = taken.length := by
      rw [expanded.counted]
      exact UInt32.toNat_ofNat_of_lt' (by show taken.length < 2 ^ 32; omega)
    have place := (sent.recordPlace (by rw [count, same]; exact few)).2
    have number : (UInt32.ofNat (sent.index + 1)).toNat = sent.index + 1 := by
      have below := Reception.index_lt member
      exact UInt32.toNat_ofNat_of_lt' (by show sent.index + 1 < 2 ^ 32; omega)
    have offset : ((state.received sent.bytes).header args).offset.toNat =
        sent.index * size sent.args := by
      rw [carries.offset, ← same, sent.offset_toNat]
    obtain ⟨before, held⟩ := expanded.held
    exact { expanded with
      counted := by
        show _ + 1 = _
        rw [expanded.counted, next, List.length_append, List.length_singleton]
      read := by
        show _ + ((payload sent.args sent.index).length : Int) = _
        rw [expanded.read, List.map_append, weight_append, Nat.cast_add]
        rfl
      held := by
        refine ⟨before, ?_⟩
        show store32 args.host _ _ _ = _
        rw [place, count, offset, held, store32, number, writes_append, Nat.zero_add, paste_append]
        rfl
      later := fun _ => rfl
      room := fun _ => room
      past := rfl
      current := carries.tick }
  · have done : ((ready.expand args reception.call.dataLen).pktCount + 1 ≥
        (ready.expand args reception.call.dataLen).totalPkts) ↔
        reception.total ≤ taken.length + 1 := by
      have succ : (UInt32.ofNat (taken.length + 1)).toNat = taken.length + 1 :=
        UInt32.toNat_ofNat_of_lt' (by show taken.length + 1 < 2 ^ 32; omega)
      rw [expanded.counted, expanded.total, next, ge_iff_le, UInt32.le_iff_toNat_le, succ]
      rfl
    rw [round_sent, handle, planned]
    simp only [copyData, described, carries.length]
    exact if_congr done rfl rfl

end Taking

/-- A further packet of a buffer that is being built is taken. -/
theorem takes_building (building : Building args reception books taken state)
    (member : sent ∈ reception.packets) : Takes args reception books taken state sent := by
  obtain ⟨carries, described⟩ := received_member member state args
  have sameTick := carries.tick.trans building.current.symm
  have sameSource := (carries.dataId.trans reception.source).trans building.source.symm
  have planned := (plan_past (state.received sent.bytes)
    ((state.received sent.bytes).description args) building.past sameSource).trans
      (planTick_same _ sameTick building.kept)
  exact ⟨_, planned, { building.toReady with
    length := carries.length
    total := by rw [described] }⟩

/-- What a call has come to with the packets of a buffer. -/
structure Took (args : ReassembledArgs) (reception : Reception dataId)
    (books : List (Reception dataId)) (state : State) (packets : List Sent) : Prop where
  inside : Along (round args) (CopiesInside args) state (packets.map Sent.recv)
  all : reception.AllReceived → ∃ final header,
    Building args reception books reception.packets final ∧
    header.tick = reception.call.tick ∧ header.dataId = dataId ∧
    feed (round args) state (packets.map Sent.recv) =
      .left (final.exit (Complete.finish args.toCompleteArgs final.toState header)) []
  few : ¬ reception.AllReceived → ∃ final,
    Building args reception books reception.packets final ∧
    feed (round args) state (packets.map Sent.recv) = .waiting final

/-- The packets of a buffer that is taken from its first packet on. -/
theorem feed_takes (least : 16 ≤ args.bufLen) {rest : List Sent}
    (takes : Takes args reception books taken state sent)
    (split : taken ++ sent :: rest = reception.packets) :
    Took args reception books state (sent :: rest) := by
  induction rest generalizing taken state sent with
  | nil =>
      have member : sent ∈ reception.packets := by rw [← split]; simp
      have length := congrArg List.length split
      rw [List.length_append, List.length_singleton] at length
      have atMost := reception.length_le
      obtain ⟨after, header, building, tick, source, step⟩ := takes_step takes member (by omega)
      have inside := takes_inside takes member (by omega) least
      rw [split] at building
      constructor
      · by_cases all : reception.total ≤ taken.length + 1
        · rw [if_pos all] at step
          exact (along_cons_of_leave step []).mpr inside
        · rw [if_neg all] at step
          exact (along_cons_of_again step []).mpr ⟨inside, trivial⟩
      · intro all
        rw [Reception.allReceived_iff, ← length] at all
        rw [if_pos all] at step
        exact ⟨after, header, building, tick, source, feed_cons_of_leave step []⟩
      · intro missing
        rw [Reception.allReceived_iff, ← length] at missing
        rw [if_neg missing] at step
        exact ⟨after, building, feed_cons_of_again step []⟩
  | cons next rest inductionHypothesis =>
      have member : sent ∈ reception.packets := by rw [← split]; simp
      have length := congrArg List.length split
      rw [List.length_append, List.length_cons, List.length_cons] at length
      have atMost := reception.length_le
      obtain ⟨after, header, building, -, -, step⟩ := takes_step takes member (by omega)
      rw [if_neg (by omega)] at step
      have isNext : next ∈ reception.packets := by rw [← split]; simp
      have later := inductionHypothesis (takes_building building isNext)
        (by rw [← split, List.append_assoc]; rfl)
      constructor
      · exact (along_cons_of_again step _).mpr
          ⟨takes_inside takes member (by omega) least, later.inside⟩
      · intro all
        obtain ⟨final, header, isBuilt, tick, source, run⟩ := later.all all
        exact ⟨final, header, isBuilt, tick, source, (feed_cons_of_again step _).trans run⟩
      · intro missing
        obtain ⟨final, isBuilding, run⟩ := later.few missing
        exact ⟨final, isBuilding, (feed_cons_of_again step _).trans run⟩

end Dift.Assemble.Reassembled
