import Dift.Assemble.Transmission

/-!
Owns the discard statistics of `getCompletePacketizedBuffer`. The packets of one
source arrive tick after tick. A tick that is begun is counted when the next one
begins, a tick that is not begun is counted at its first packet; a begun tick
followed by one that is not begun is never counted.
-/

namespace Dift.Assemble

open Dift.Foundation
open Dift.Wire

/-- The packets of one tick that arrive, in order and without duplicates. -/
structure Arrivals (dataId : UInt16) where
  tick : UInt64
  transmission : Transmission
  first : Packet
  others : List Packet
  nodup : (first :: others).Nodup
  sent : ∀ packet ∈ first :: others, packet ∈ transmission.packets tick dataId

namespace Arrivals

variable {dataId : UInt16} (arrivals : Arrivals dataId)

def packets : List Packet := arrivals.first :: arrivals.others

/-- The length of the buffer that was sent. -/
def total : Nat := arrivals.transmission.payload.length

/-- The packet at offset 0 arrives first. -/
def Begun : Prop := arrivals.first.offset = 0

/-- Every packet of the buffer arrives. -/
def AllReceived : Prop :=
  arrivals.packets.Perm (arrivals.transmission.packets arrivals.tick dataId)

/-- The buffer is completely received, starting with its packet at offset 0. -/
def Whole : Prop := arrivals.Begun ∧ arrivals.AllReceived

variable {arrivals}

theorem weight_of_allReceived (all : arrivals.AllReceived) :
    weight (arrivals.packets.map Packet.piece) = arrivals.total := by
  rw [weight_perm (all.map Packet.piece), Transmission.map_piece_packets, weight_layout]
  rfl

/-- Pieces that weigh as much as the buffer are all of them. -/
theorem allReceived_of_weight
    (heavy : arrivals.total ≤ weight (arrivals.packets.map Packet.piece)) :
    arrivals.AllReceived := by
  have pieces : (arrivals.packets.map Packet.piece).Perm
      (layout 0 arrivals.transmission.chunks) := by
    apply perm_of_weight_le (Transmission.nodup_map_piece arrivals.nodup arrivals.sent)
    · intro piece member
      obtain ⟨packet, received, rfl⟩ := List.mem_map.mp member
      exact Transmission.piece_mem (arrivals.sent packet received)
    · intro piece member
      exact arrivals.transmission.nonempty _ (mem_layout_block member)
    · rw [weight_layout]
      exact heavy
  have restored : (arrivals.packets.map Packet.piece).map
      (arrivals.transmission.packet arrivals.tick dataId) = arrivals.packets := by
    rw [List.map_map]
    conv_rhs => rw [← List.map_id arrivals.packets]
    exact List.map_congr_left fun packet member =>
      Transmission.packet_piece (arrivals.sent packet member)
  have back := pieces.map (arrivals.transmission.packet arrivals.tick dataId)
  rw [restored] at back
  exact back

theorem weight_lt_of_not_allReceived (missing : ¬ arrivals.AllReceived) :
    weight (arrivals.packets.map Packet.piece) < arrivals.total := by
  by_contra heavy
  exact missing (allReceived_of_weight (not_lt.mp heavy))

theorem weight_le (arrivals : Arrivals dataId) :
    weight (arrivals.packets.map Packet.piece) ≤ arrivals.total := by
  by_cases all : arrivals.AllReceived
  · exact (weight_of_allReceived all).le
  · exact (weight_lt_of_not_allReceived all).le

/-- There are fewer packets than `uint32_t` values. -/
theorem length_lt (arrivals : Arrivals dataId) : arrivals.packets.length < 2 ^ 32 := by
  have atLeast : (arrivals.packets.map Packet.piece).length ≤
      weight (arrivals.packets.map Packet.piece) := by
    apply length_le_weight
    intro piece member
    obtain ⟨packet, received, rfl⟩ := List.mem_map.mp member
    exact (Transmission.mem_wellFormed (arrivals.sent packet received)).nonempty
  have atMost := arrivals.weight_le
  have short : arrivals.total < 2 ^ 32 := arrivals.transmission.short
  rw [List.length_map] at atLeast
  omega

end Arrivals

/-! ### Building one tick -/

namespace Complete

variable {args : CompleteArgs} {dataId : UInt16} {arrivals : Arrivals dataId} {packet : Packet}
  {bufs bytes : Int} {got count : Nat} {state : State}

/-- The variables before a packet of the tick is copied: `got` bytes in `count`
packets are there, and so many buffers and bytes have been discarded. -/
structure Ready (args : CompleteArgs) (arrivals : Arrivals dataId) (bufs bytes : Int)
    (got count : Nat) (state : State) : Prop where
  kept : state.dumpTick = false
  source : state.srcId = dataId
  length : state.length.toNat = arrivals.total
  read : state.totalBytesRead = got
  packets : state.pktCount = UInt32.ofNat count
  bufs : state.discardedBufs = bufs
  bytes : state.discardedBytes = bytes
  stats : state.stats = args.stats

/-- The variables after a packet of the tick was copied. -/
structure Building (args : CompleteArgs) (arrivals : Arrivals dataId) (bufs bytes : Int)
    (got count : Nat) (state : State) : Prop extends
    Ready args arrivals bufs bytes got count state where
  notFirst : state.veryFirstRead = false
  current : state.prevTick = arrivals.tick

theorem building_afterCopy (ready : Ready args arrivals bufs bytes got count state)
    (member : packet ∈ arrivals.packets) :
    Building args arrivals bufs bytes (got + packet.payload.length) (count + 1)
      (state.afterCopy (fields packet) packet.payload) where
  kept := ready.kept
  source := ready.source
  length := ready.length
  read := by
    show state.totalBytesRead + (packet.payload.length : Int) = _
    rw [ready.read, Nat.cast_add]
  packets := by
    show state.pktCount + 1 = _
    rw [ready.packets, UInt32.ofNat_add]
    rfl
  bufs := ready.bufs
  bytes := ready.bytes
  stats := ready.stats
  notFirst := rfl
  current := Transmission.mem_tick (arrivals.sent packet member)

/-- A further packet of a tick being built is copied. -/
theorem plan_building (building : Building args arrivals bufs bytes got count state)
    (member : packet ∈ arrivals.packets) :
    ∃ ready, plan state (fields packet) packet.payload = .copy ready ∧
      Ready args arrivals bufs bytes got count ready := by
  have sameTick := Transmission.mem_tick (arrivals.sent packet member)
  have sameSource := Transmission.mem_dataId (arrivals.sent packet member)
  have sameLength := Transmission.mem_length (arrivals.sent packet member)
  refine ⟨state.parsed (fields packet), ?_, ?_⟩
  · rw [plan_known state (fields packet) packet.payload building.notFirst
        (sameSource.trans building.source.symm),
      planTick_same (state.parsed (fields packet)) (sameTick.trans building.current.symm)
        building.kept]
  · exact { building.toReady with length := sameLength }

/-- A packet of the tick comes as far as the copy. -/
def Takes (args : CompleteArgs) (arrivals : Arrivals dataId) (bufs bytes : Int) (got count : Nat)
    (state : State) (packet : Packet) : Prop :=
  ∃ ready, round args state packet.recv = copyData args ready (fields packet) packet.payload ∧
    Ready args arrivals bufs bytes got count ready

theorem takes_of_plan {ready : State} (member : packet ∈ arrivals.packets)
    (copies : plan state (fields packet) packet.payload = .copy ready)
    (isReady : Ready args arrivals bufs bytes got count ready) :
    Takes args arrivals bufs bytes got count state packet := by
  refine ⟨ready, ?_, isReady⟩
  rw [round_recv state (Transmission.mem_wellFormed (arrivals.sent packet member)), handle_eq,
    copies]
  rfl

theorem takes_building (building : Building args arrivals bufs bytes got count state)
    (member : packet ∈ arrivals.packets) :
    Takes args arrivals bufs bytes got count state packet := by
  obtain ⟨ready, copies, isReady⟩ := plan_building building member
  exact takes_of_plan member copies isReady

/-- What a copy leads to. -/
theorem copyData_ready (ready : Ready args arrivals bufs bytes got count state)
    (member : packet ∈ arrivals.packets)
    (room : packet.offset.toNat + packet.payload.length ≤ args.bufLen) :
    ∃ after, Building args arrivals bufs bytes (got + packet.payload.length) (count + 1) after ∧
      copyData args state (fields packet) packet.payload =
        if arrivals.total ≤ got + packet.payload.length then
          .leave (finish args after (fields packet))
        else .again after := by
  have building := building_afterCopy ready member
  have sameLength := Transmission.mem_length (arrivals.sent packet member)
  refine ⟨_, building, ?_⟩
  rw [copyData_eq state room, building.read]
  show (if ((got + packet.payload.length : Nat) : Int) ≥ (packet.length.toNat : Int) then _
    else _) = _
  rw [sameLength]
  simp only [ge_iff_le, Nat.cast_le]
  rfl

/-- The round of a packet that fits. -/
theorem takes_step (takes : Takes args arrivals bufs bytes got count state packet)
    (member : packet ∈ arrivals.packets)
    (room : packet.offset.toNat + packet.payload.length ≤ args.bufLen) :
    ∃ after, Building args arrivals bufs bytes (got + packet.payload.length) (count + 1) after ∧
      round args state packet.recv =
        if arrivals.total ≤ got + packet.payload.length then
          .leave (finish args after (fields packet))
        else .again after := by
  obtain ⟨ready, step, isReady⟩ := takes
  rw [step]
  exact copyData_ready isReady member room

/-- The round of a packet that does not fit. -/
theorem takes_tooSmall (takes : Takes args arrivals bufs bytes got count state packet)
    (tooSmall : ¬ packet.offset.toNat + packet.payload.length ≤ args.bufLen) :
    ∃ outcome, round args state packet.recv = .leave (.returned outcome) ∧
      outcome.ret = bufTooSmall := by
  obtain ⟨ready, step, -⟩ := takes
  rw [step, copyData, if_pos (show (fields packet).offset.toNat + packet.payload.length >
    args.bufLen from not_le.mp tooSmall)]
  exact ⟨_, rfl, rfl⟩

section Taking

variable {others : List Packet} (takes : Takes args arrivals bufs bytes got count state packet)
  (members : ∀ one ∈ packet :: others, one ∈ arrivals.packets)

/-- The bytes of a packet and of those behind it. -/
theorem weight_pieces (packet : Packet) (others : List Packet) :
    weight ((packet :: others).map Packet.piece) =
      packet.payload.length + weight (others.map Packet.piece) := by
  rw [List.map_cons, weight_cons]
  rfl

include takes members

/-- Packets that fit and do not complete the buffer leave it in building. -/
theorem feed_incomplete (room : Session.Roomy args.bufLen (packet :: others))
    (few : got + weight ((packet :: others).map Packet.piece) < arrivals.total) :
    ∃ final, feed (round args) state ((packet :: others).map Packet.recv) = .waiting final ∧
      Building args arrivals bufs bytes (got + weight ((packet :: others).map Packet.piece))
        (count + (packet :: others).length) final := by
  rw [weight_pieces] at few ⊢
  induction others generalizing packet state got count with
  | nil =>
      obtain ⟨after, building, step⟩ := takes_step takes (members packet (by simp))
        (room packet (by simp))
      rw [if_neg (by omega)] at step
      exact ⟨after, feed_cons_of_again step [], building⟩
  | cons next more inductionHypothesis =>
      obtain ⟨after, building, step⟩ := takes_step takes (members packet (by simp))
        (room packet (by simp))
      rw [if_neg (by omega)] at step
      rw [weight_pieces, ← Nat.add_assoc] at few ⊢
      obtain ⟨final, run, stays⟩ := inductionHypothesis
        (takes_building building (members next (by simp)))
        (fun one member => members one (List.mem_cons_of_mem _ member))
        (fun one member => room one (List.mem_cons_of_mem _ member)) (by omega)
      refine ⟨final, ?_, ?_⟩
      · rw [List.map_cons, feed_cons_of_again step, run]
      · convert stays using 1
        simp only [List.length_cons]
        omega

/-- Packets that fit and complete the buffer with the last one end the call. -/
theorem feed_exact (room : Session.Roomy args.bufLen (packet :: others))
    (exactly : got + weight ((packet :: others).map Packet.piece) = arrivals.total) :
    ∃ final last, last ∈ arrivals.packets ∧
      feed (round args) state ((packet :: others).map Packet.recv) =
        .left (finish args final (fields last)) [] ∧
      Building args arrivals bufs bytes arrivals.total (count + (packet :: others).length)
        final := by
  rw [weight_pieces] at exactly
  induction others generalizing packet state got count with
  | nil =>
      obtain ⟨after, building, step⟩ := takes_step takes (members packet (by simp))
        (room packet (by simp))
      have all : got + packet.payload.length = arrivals.total := by simpa using exactly
      rw [if_pos all.ge] at step
      rw [all] at building
      exact ⟨after, packet, members packet (by simp), feed_cons_of_leave step [], building⟩
  | cons next more inductionHypothesis =>
      obtain ⟨after, building, step⟩ := takes_step takes (members packet (by simp))
        (room packet (by simp))
      have hasData := List.length_pos_iff.mpr
        (Transmission.mem_wellFormed (arrivals.sent next (members next (by simp)))).nonempty
      rw [weight_pieces, ← Nat.add_assoc] at exactly
      rw [if_neg (by omega)] at step
      obtain ⟨final, last, member, run, stays⟩ := inductionHypothesis
        (takes_building building (members next (by simp)))
        (fun one member => members one (List.mem_cons_of_mem _ member))
        (fun one member => room one (List.mem_cons_of_mem _ member)) (by omega)
      refine ⟨final, last, member, ?_, ?_⟩
      · rw [List.map_cons, feed_cons_of_again step, run]
      · convert stays using 1
        simp only [List.length_cons]
        omega

/-- A packet that does not fit ends the call. -/
theorem feed_tooSmall (tooSmall : ¬ Session.Roomy args.bufLen (packet :: others))
    (atMost : got + weight ((packet :: others).map Packet.piece) ≤ arrivals.total) :
    ∃ outcome unread, feed (round args) state ((packet :: others).map Packet.recv) =
        .left (.returned outcome) unread ∧ outcome.ret = bufTooSmall := by
  rw [weight_pieces] at atMost
  induction others generalizing packet state got count with
  | nil =>
      have beyond : ¬ packet.offset.toNat + packet.payload.length ≤ args.bufLen := by
        intro room
        apply tooSmall
        intro one member
        rwa [List.mem_singleton.mp member]
      obtain ⟨outcome, step, code⟩ := takes_tooSmall takes beyond
      exact ⟨outcome, [], feed_cons_of_leave step [], code⟩
  | cons next more inductionHypothesis =>
      by_cases room : packet.offset.toNat + packet.payload.length ≤ args.bufLen
      · obtain ⟨after, building, step⟩ := takes_step takes (members packet (by simp)) room
        have hasData := List.length_pos_iff.mpr
          (Transmission.mem_wellFormed (arrivals.sent next (members next (by simp)))).nonempty
        have laterTooSmall : ¬ Session.Roomy args.bufLen (next :: more) := by
          intro laterRoom
          apply tooSmall
          intro one member
          rcases List.mem_cons.mp member with rfl | later
          · exact room
          · exact laterRoom one later
        rw [weight_pieces, ← Nat.add_assoc] at atMost
        rw [if_neg (by omega)] at step
        obtain ⟨outcome, unread, run, code⟩ := inductionHypothesis
          (takes_building building (members next (by simp)))
          (fun one member => members one (List.mem_cons_of_mem _ member)) laterTooSmall (by omega)
        refine ⟨outcome, unread, ?_, code⟩
        rw [List.map_cons, feed_cons_of_again step, run]
      · obtain ⟨outcome, step, code⟩ := takes_tooSmall takes room
        exact ⟨outcome, _, feed_cons_of_leave step _, code⟩

end Taking

/-! ### From tick to tick -/

/-- The variables between two ticks: a tick of the given length is still in
building, or none is. -/
structure Between (args : CompleteArgs) (dataId : UInt16) (tick : UInt64) (pending : Option Nat)
    (bufs bytes : Int) (state : State) : Prop where
  current : state.prevTick = tick
  bufs : state.discardedBufs = bufs
  bytes : state.discardedBytes = bytes
  stats : state.stats = args.stats
  phase : match pending with
    | none => state.veryFirstRead = true
    | some total => state.veryFirstRead = false ∧ state.srcId = dataId ∧
        state.length.toNat = total

theorem Building.between (building : Building args arrivals bufs bytes got count state) :
    Between args dataId arrivals.tick (some arrivals.total) bufs bytes state where
  current := building.current
  bufs := building.bufs
  bytes := building.bytes
  stats := building.stats
  phase := ⟨building.notFirst, building.source, building.length⟩

variable {tick : UInt64} {pending : Option Nat}

/-- A new tick that is begun takes its first packet, and a tick in building is
discarded. -/
theorem takes_begun (between : Between args dataId tick pending bufs bytes state)
    (newTick : arrivals.tick ≠ tick) (begun : arrivals.Begun) :
    Takes args arrivals (bufs + pending.toList.length) (bytes + pending.toList.sum) 0 0 state
      arrivals.first := by
  have member : arrivals.first ∈ arrivals.packets := by simp [Arrivals.packets]
  have sent := arrivals.sent arrivals.first member
  have source : arrivals.first.dataId = dataId := Transmission.mem_dataId sent
  have total : arrivals.first.length.toNat = arrivals.total := Transmission.mem_length sent
  have hasData := (Transmission.mem_wellFormed sent).nonempty
  have new : (fields arrivals.first).tick ≠ state.prevTick := by
    rw [between.current]
    show arrivals.first.tick ≠ tick
    rwa [Transmission.mem_tick sent]
  cases pending with
  | none =>
      have first : state.veryFirstRead = true := between.phase
      have copies := plan_first state (fields arrivals.first) first hasData
      rw [planTick_begin (state.firstRead (fields arrivals.first) arrivals.first.payload) new begun
        first] at copies
      apply takes_of_plan member copies
      refine ⟨rfl, source, total, rfl, rfl, ?_, ?_, between.stats⟩
      · show state.discardedBufs = _
        simp [between.bufs]
      · show state.discardedBytes = _
        simp [between.bytes]
  | some length =>
      obtain ⟨notFirst, sameSource, sameLength⟩ := between.phase
      have copies := plan_known state (fields arrivals.first) arrivals.first.payload notFirst
        (source.trans sameSource.symm)
      rw [planTick_replace (state.parsed (fields arrivals.first)) new begun notFirst] at copies
      apply takes_of_plan member copies
      refine ⟨rfl, source, total, rfl, rfl, ?_, ?_, between.stats⟩
      · show state.discardedBufs + 1 = _
        simp [between.bufs]
      · show state.discardedBytes + (state.length.toNat : Int) = _
        simp [between.bytes, sameLength]

/-- A packet of a tick that is being thrown away. -/
theorem round_dumped (between : Between args dataId arrivals.tick none bufs bytes state)
    (dumps : state.dumpTick = true) (member : packet ∈ arrivals.packets) :
    ∃ next, round args state packet.recv = .again next ∧
      Between args dataId arrivals.tick none bufs bytes next ∧ next.dumpTick = true := by
  have sent := arrivals.sent packet member
  have wellFormed := Transmission.mem_wellFormed sent
  have first : state.veryFirstRead = true := between.phase
  have same := (Transmission.mem_tick sent).trans between.current.symm
  rw [round_recv state wellFormed, handle_eq,
    plan_first state (fields packet) first wellFormed.nonempty,
    planTick_dumped (state.firstRead (fields packet) packet.payload) same dumps]
  exact ⟨_, rfl, ⟨between.current, between.bufs, between.bytes, between.stats, rfl⟩, dumps⟩

theorem feed_dumped {packets : List Packet}
    (members : ∀ packet ∈ packets, packet ∈ arrivals.packets)
    (between : Between args dataId arrivals.tick none bufs bytes state)
    (dumps : state.dumpTick = true) :
    ∃ final, feed (round args) state (packets.map Packet.recv) = .waiting final ∧
      Between args dataId arrivals.tick none bufs bytes final := by
  induction packets generalizing state with
  | nil => exact ⟨state, rfl, between⟩
  | cons packet rest inductionHypothesis =>
      obtain ⟨next, step, stays, dumpsOn⟩ := round_dumped between dumps (members packet (by simp))
      rw [List.map_cons, feed_cons_of_again step]
      exact inductionHypothesis (fun one member => members one (List.mem_cons_of_mem _ member))
        stays dumpsOn

/-- A new tick that is not begun is discarded whole, and nothing else is. -/
theorem feed_notBegun (between : Between args dataId tick pending bufs bytes state)
    (newTick : arrivals.tick ≠ tick) (notBegun : ¬ arrivals.Begun) :
    ∃ final, feed (round args) state (arrivals.packets.map Packet.recv) = .waiting final ∧
      Between args dataId arrivals.tick none (bufs + 1) (bytes + arrivals.total) final := by
  have member : arrivals.first ∈ arrivals.packets := by simp [Arrivals.packets]
  have sent := arrivals.sent arrivals.first member
  have wellFormed := Transmission.mem_wellFormed sent
  have sameTick : arrivals.first.tick = arrivals.tick := Transmission.mem_tick sent
  have total : arrivals.first.length.toNat = arrivals.total := Transmission.mem_length sent
  have new : (fields arrivals.first).tick ≠ state.prevTick := by
    rw [between.current]
    show arrivals.first.tick ≠ tick
    rwa [sameTick]
  have bufsAfter : state.discardedBufs + 1 = bufs + 1 := by rw [between.bufs]
  have bytesAfter : state.discardedBytes + (arrivals.first.length.toNat : Int) =
      bytes + arrivals.total := by
    rw [between.bytes, total]
  -- Whatever came before, the first packet begins the dump and is the one counted.
  have step : ∃ next, round args state arrivals.first.recv = .again next ∧
      Between args dataId arrivals.tick none (bufs + 1) (bytes + arrivals.total) next ∧
      next.dumpTick = true := by
    rw [round_recv state wellFormed, handle_eq]
    cases pending with
    | none =>
        have first : state.veryFirstRead = true := between.phase
        rw [plan_first state (fields arrivals.first) first wellFormed.nonempty,
          planTick_missing (state.firstRead (fields arrivals.first) arrivals.first.payload) new
            notBegun]
        exact ⟨_, rfl, ⟨sameTick, bufsAfter, bytesAfter, between.stats, rfl⟩, rfl⟩
    | some length =>
        obtain ⟨notFirst, sameSource, sameLength⟩ := between.phase
        rw [plan_known state (fields arrivals.first) arrivals.first.payload notFirst
            ((Transmission.mem_dataId sent).trans sameSource.symm),
          planTick_missing (state.parsed (fields arrivals.first)) new notBegun]
        exact ⟨_, rfl, ⟨sameTick, bufsAfter, bytesAfter, between.stats, rfl⟩, rfl⟩
  obtain ⟨next, first, after, dumps⟩ := step
  rw [Arrivals.packets, List.map_cons, feed_cons_of_again first]
  exact feed_dumped (fun one later => List.mem_cons_of_mem _ later) after dumps

/-! ### Which ticks are counted -/

instance (arrivals : Arrivals dataId) : Decidable arrivals.Begun := by
  unfold Arrivals.Begun
  infer_instance

/-- The lengths that the discarded bytes are the sum of, when some ticks and then
one that is begun arrive. -/
def counted : Option Nat → List (Arrivals dataId) → List Nat
  | pending, [] => pending.toList
  | pending, arrivals :: rest =>
      if arrivals.Begun then pending.toList ++ counted (some arrivals.total) rest
      else arrivals.total :: counted none rest

theorem counted_length_le (pending : Option Nat) (earlier : List (Arrivals dataId)) :
    (counted pending earlier).length ≤ pending.toList.length + earlier.length := by
  induction earlier generalizing pending with
  | nil => simp [counted]
  | cons arrivals rest inductionHypothesis =>
      rw [counted]
      split_ifs
      · have later := inductionHypothesis (some arrivals.total)
        simp only [List.length_append, List.length_cons, Option.toList_some, List.length_nil]
          at later ⊢
        omega
      · have later := inductionHypothesis none
        simp only [List.length_cons, Option.toList_none, List.length_nil] at later ⊢
        omega

/-- Every tick is counted exactly when none that is not begun comes after one
that is. -/
theorem counted_length_iff (pending : Option Nat) (earlier : List (Arrivals dataId)) :
    (counted pending earlier).length = pending.toList.length + earlier.length ↔
      (pending.isSome → ∀ arrivals ∈ earlier, arrivals.Begun) ∧
        earlier.Pairwise fun before after => before.Begun → after.Begun := by
  induction earlier generalizing pending with
  | nil => simp [counted]
  | cons arrivals rest inductionHypothesis =>
      rw [counted, List.pairwise_cons]
      by_cases begun : arrivals.Begun
      · have later := inductionHypothesis (some arrivals.total)
        simp only [Option.toList_some, List.length_cons, List.length_nil, Option.isSome_some,
          true_implies] at later
        rw [if_pos begun]
        simp only [List.length_append, List.length_cons, List.mem_cons, forall_eq_or_imp, begun,
          true_and, true_implies]
        constructor
        · intro equal
          have all := later.mp (by omega)
          exact ⟨fun _ => all.1, all⟩
        · intro all
          have equal := later.mpr all.2
          omega
      · have later := inductionHypothesis none
        have atMost := counted_length_le none rest
        simp only [Option.toList_none, List.length_nil, Option.isSome_none, Bool.false_eq_true,
          false_implies, true_and] at later atMost
        rw [if_neg begun]
        cases pending with
        | none =>
            simp only [Option.toList_none, List.length_cons, List.length_nil, Option.isSome_none,
              Bool.false_eq_true, false_implies, true_and, begun, implies_true]
            rw [← later]
            omega
        | some length =>
            simp only [Option.toList_some, List.length_cons, List.length_nil, Option.isSome_some,
              true_implies, List.mem_cons, forall_eq_or_imp, begun, false_and, iff_false]
            omega

theorem counted_eq (pending : Option Nat) (earlier : List (Arrivals dataId))
    (all : (pending.isSome → ∀ arrivals ∈ earlier, arrivals.Begun) ∧
      earlier.Pairwise fun before after => before.Begun → after.Begun) :
    counted pending earlier = pending.toList ++ earlier.map Arrivals.total := by
  induction earlier generalizing pending with
  | nil => simp [counted]
  | cons arrivals rest inductionHypothesis =>
      obtain ⟨follow, inOrder⟩ := all
      obtain ⟨here, later⟩ := List.pairwise_cons.mp inOrder
      rw [counted, List.map_cons]
      by_cases begun : arrivals.Begun
      · rw [if_pos begun, inductionHypothesis (some arrivals.total)
          ⟨fun _ other member => here other member begun, later⟩]
        rfl
      · cases pending with
        | none =>
            rw [if_neg begun, inductionHypothesis none ⟨nofun, later⟩]
            rfl
        | some length => exact absurd (follow rfl arrivals (by simp)) begun

/-! ### Whole streams -/

/-- The packets of some ticks, one tick after the other. -/
def stream (ticks : List (Arrivals dataId)) : List Packet :=
  ticks.flatMap Arrivals.packets

/-- Every packet of a begun tick fits into the buffer. -/
def Fits (args : CompleteArgs) (ticks : List (Arrivals dataId)) : Prop :=
  ∀ arrivals ∈ ticks, arrivals.Begun → Session.Roomy args.bufLen arrivals.packets

/-- The call has built the last tick, with so many buffers and bytes discarded. -/
def EndsBuilt (args : CompleteArgs) (last : Arrivals dataId) (bufs bytes : Int)
    (fed : Fed State Exit Recv) : Prop :=
  ∃ final packet, packet ∈ last.packets ∧ fed = .left (finish args final (fields packet)) [] ∧
    Building args last bufs bytes last.total last.packets.length final

/-- The call has returned that its buffer is too small. -/
def EndsTooSmall (fed : Fed State Exit Recv) : Prop :=
  ∃ outcome unread, fed = .left (.returned outcome) unread ∧ outcome.ret = bufTooSmall

/-- A tick that is taken from its first packet on and received whole. -/
theorem feed_taken_whole (takes : Takes args arrivals bufs bytes 0 0 state arrivals.first)
    (all : arrivals.AllReceived) :
    (Session.Roomy args.bufLen arrivals.packets → EndsBuilt args arrivals bufs bytes
      (feed (round args) state (arrivals.packets.map Packet.recv))) ∧
    (¬ Session.Roomy args.bufLen arrivals.packets →
      EndsTooSmall (feed (round args) state (arrivals.packets.map Packet.recv))) := by
  have total : 0 + weight (arrivals.packets.map Packet.piece) = arrivals.total := by
    rw [Nat.zero_add, Arrivals.weight_of_allReceived all]
  constructor
  · intro room
    obtain ⟨final, packet, member, run, building⟩ :=
      feed_exact takes (fun _ member => member) room total
    rw [Nat.zero_add] at building
    exact ⟨final, packet, member, run, building⟩
  · intro tooSmall
    exact feed_tooSmall takes (fun _ member => member) tooSmall total.le

/-- A tick that is taken from its first packet on and not received whole. -/
theorem feed_taken_partly (takes : Takes args arrivals bufs bytes 0 0 state arrivals.first)
    (missing : ¬ arrivals.AllReceived) :
    (Session.Roomy args.bufLen arrivals.packets →
      ∃ final, feed (round args) state (arrivals.packets.map Packet.recv) = .waiting final ∧
        Between args dataId arrivals.tick (some arrivals.total) bufs bytes final) ∧
    (¬ Session.Roomy args.bufLen arrivals.packets →
      EndsTooSmall (feed (round args) state (arrivals.packets.map Packet.recv))) := by
  have few : 0 + weight (arrivals.packets.map Packet.piece) < arrivals.total := by
    rw [Nat.zero_add]
    exact Arrivals.weight_lt_of_not_allReceived missing
  constructor
  · intro room
    obtain ⟨final, run, building⟩ := feed_incomplete takes (fun _ member => member) room few
    exact ⟨final, run, building.between⟩
  · intro tooSmall
    exact feed_tooSmall takes (fun _ member => member) tooSmall few.le

theorem endsTooSmall_append {first : List Recv} (second : List Recv)
    (ends : EndsTooSmall (feed (round args) state first)) :
    EndsTooSmall (feed (round args) state (first ++ second)) := by
  obtain ⟨outcome, unread, run, code⟩ := ends
  exact ⟨outcome, _, feed_append_of_left run second, code⟩

theorem fits_cons (arrivals : Arrivals dataId) (ticks : List (Arrivals dataId)) :
    Fits args (arrivals :: ticks) ↔
      (arrivals.Begun → Session.Roomy args.bufLen arrivals.packets) ∧ Fits args ticks := by
  simp [Fits]

/-- What the call comes to when it has read some ticks that are not whole and
then one that is. -/
theorem feed_stream {earlier : List (Arrivals dataId)} {last : Arrivals dataId}
    (between : Between args dataId tick pending bufs bytes state)
    (changes : (tick :: (earlier ++ [last]).map Arrivals.tick).IsChain (· ≠ ·))
    (notWhole : ∀ arrivals ∈ earlier, ¬ arrivals.Whole) (whole : last.Whole) :
    (Fits args (earlier ++ [last]) →
      EndsBuilt args last (bufs + (counted pending earlier).length)
        (bytes + (counted pending earlier).sum)
        (feed (round args) state ((stream (earlier ++ [last])).map Packet.recv))) ∧
    (¬ Fits args (earlier ++ [last]) →
      EndsTooSmall (feed (round args) state ((stream (earlier ++ [last])).map Packet.recv))) := by
  induction earlier generalizing tick pending bufs bytes state with
  | nil =>
      have newTick : last.tick ≠ tick := (List.isChain_cons_cons.mp changes).1.symm
      have taken := feed_taken_whole (takes_begun between newTick whole.1) whole.2
      simp only [List.nil_append, counted, stream, List.flatMap_cons, List.flatMap_nil,
        List.append_nil, fits_cons, whole.1, true_implies]
      constructor
      · intro room
        exact taken.1 room.1
      · intro tooSmall
        exact taken.2 fun room => tooSmall ⟨room, by simp [Fits]⟩
  | cons arrivals rest inductionHypothesis =>
      obtain ⟨differs, laterChanges⟩ := List.isChain_cons_cons.mp changes
      have newTick : arrivals.tick ≠ tick := differs.symm
      have laterNotWhole : ∀ other ∈ rest, ¬ other.Whole := fun other member =>
        notWhole other (by simp [member])
      have split : (stream (arrivals :: rest ++ [last])).map Packet.recv =
          arrivals.packets.map Packet.recv ++ (stream (rest ++ [last])).map Packet.recv := by
        simp [stream]
      rw [split, List.cons_append, fits_cons, counted]
      by_cases begun : arrivals.Begun
      · have missing : ¬ arrivals.AllReceived := fun all =>
          notWhole arrivals (by simp) ⟨begun, all⟩
        have taken := feed_taken_partly (takes_begun between newTick begun) missing
        rw [if_pos begun]
        by_cases room : Session.Roomy args.bufLen arrivals.packets
        · obtain ⟨final, run, after⟩ := taken.1 room
          have later := inductionHypothesis after laterChanges laterNotWhole
          rw [feed_append_of_waiting run, List.length_append, List.sum_append, Nat.cast_add,
            Nat.cast_add, ← Int.add_assoc, ← Int.add_assoc]
          simpa only [begun, room, true_implies, true_and] using later
        · have ends := endsTooSmall_append ((stream (rest ++ [last])).map Packet.recv)
            (taken.2 room)
          simp [begun, room, ends]
      · obtain ⟨final, run, after⟩ := feed_notBegun between newTick begun
        have later := inductionHypothesis after laterChanges laterNotWhole
        rw [if_neg begun, feed_append_of_waiting run, List.length_cons, List.sum_cons,
          Nat.cast_add, Nat.cast_add, Int.add_comm _ ((1 : Nat) : Int), Nat.cast_one,
          ← Int.add_assoc, ← Int.add_assoc]
        simpa only [begun, false_implies, true_and] using later

/-! ### The whole call -/

/-- The call returns the last tick and the statistics account for all the others:
it adds one buffer and its length for each tick that is discarded, and the bytes
and packets of the last. -/
def Accounts (args : CompleteArgs) (before : PacketRecvStats) (earlier : List (Arrivals dataId))
    (last : Arrivals dataId) (rest : List Recv) : Prop :=
  ∃ outcome after,
    getCompletePacketizedBuffer args ((stream (earlier ++ [last])).map Packet.recv ++ rest) =
      .left (.returned outcome) rest ∧
    outcome.ret = last.total ∧ outcome.tick = last.tick ∧ outcome.stats = some after ∧
    after.discardedBuffers = before.discardedBuffers + earlier.length ∧
    after.discardedBytes = before.discardedBytes + (earlier.map Arrivals.total).sum ∧
    after.acceptedBytes = before.acceptedBytes + last.total ∧
    after.acceptedPackets = before.acceptedPackets + last.packets.length

/-- What the statistics need to account for every tick. Nothing divides by zero,
the ticks that are built fit, none that is not begun comes after one that is;
and a first tick that is `UINT_MAX`, which is built from any packet on, is not
received whole and only begun ones come after it. -/
structure Accountable (args : CompleteArgs) (earlier : List (Arrivals dataId))
    (last : Arrivals dataId) : Prop where
  whole : ¬ Divides args
  fits : Fits args (earlier ++ [last])
  inOrder : earlier.Pairwise fun before after => before.Begun → after.Begun
  sentinel : ∀ first others, earlier = first :: others → first.tick = uintMax →
    Session.Roomy args.bufLen first.packets ∧ ¬ first.AllReceived ∧
      ∀ other ∈ others, other.Begun

theorem between_start (args : CompleteArgs) (dataId : UInt16) :
    Between args dataId uintMax none 0 0 (start args) :=
  ⟨rfl, rfl, rfl, rfl, rfl⟩

/-- A call takes its first tick if it is begun or `UINT_MAX`. -/
theorem takes_start (args : CompleteArgs)
    (opens : arrivals.Begun ∨ arrivals.tick = uintMax) :
    Takes args arrivals 0 0 0 0 (start args) arrivals.first := by
  by_cases sentinel : arrivals.tick = uintMax
  · have member : arrivals.first ∈ arrivals.packets := by simp [Arrivals.packets]
    have sent := arrivals.sent arrivals.first member
    have copies := plan_first (start args) (fields arrivals.first) rfl
      (Transmission.mem_wellFormed sent).nonempty
    rw [planTick_same ((start args).firstRead (fields arrivals.first) arrivals.first.payload)
      ((Transmission.mem_tick sent).trans sentinel) rfl] at copies
    exact takes_of_plan member copies ⟨rfl, Transmission.mem_dataId sent,
      Transmission.mem_length sent, rfl, rfl, rfl, rfl, rfl⟩
  · have takes := takes_begun (between_start args dataId) sentinel (opens.resolve_right sentinel)
    simpa using takes

/-- What a finished call returns. -/
theorem endsBuilt_returns {before : PacketRecvStats} (given : args.stats = some before)
    {fed : Fed State Exit Recv} (ends : EndsBuilt args arrivals bufs bytes fed) :
    (Divides args → fed = .left .divideByZero []) ∧
    (¬ Divides args → ∃ outcome after, fed = .left (.returned outcome) [] ∧
      outcome.ret = arrivals.total ∧ outcome.tick = arrivals.tick ∧ outcome.stats = some after ∧
      after.discardedBuffers = before.discardedBuffers + bufs ∧
      after.discardedBytes = before.discardedBytes + bytes ∧
      after.acceptedBytes = before.acceptedBytes + arrivals.total ∧
      after.acceptedPackets = before.acceptedPackets + arrivals.packets.length) := by
  obtain ⟨final, packet, member, rfl, building⟩ := ends
  have sameTick := Transmission.mem_tick (arrivals.sent packet member)
  have count : final.pktCount.toNat = arrivals.packets.length := by
    rw [building.packets, UInt32.toNat_ofNat_of_lt' arrivals.length_lt]
  have stats : final.stats = some before := building.stats.trans given
  have present : args.stats.isSome = true := by rw [given]; rfl
  unfold finish
  rw [stats]
  by_cases expects : args.tick ≠ 0xFFFFFFFFFFFFFFFF
  · by_cases zero : args.tickPrescale = 0
    · simp only [finishStats, if_pos expects, if_pos zero]
      exact ⟨fun _ => trivial, fun whole => absurd ⟨present, expects, zero⟩ whole⟩
    · simp only [finishStats, if_pos expects, if_neg zero]
      refine ⟨fun divides => absurd divides.2.2 zero, fun _ => ⟨_, _, rfl, building.read, sameTick,
        rfl, ?_, ?_, ?_, ?_⟩⟩
      · rw [building.bufs]
      · rw [building.bytes]
      · rw [building.read]
      · rw [count]
  · simp only [finishStats, if_neg expects]
    refine ⟨fun divides => absurd divides.2.1 expects, fun _ => ⟨_, _, rfl, building.read, sameTick,
      rfl, ?_, ?_, ?_, ?_⟩⟩
    · rw [building.bufs]
    · rw [building.bytes]
    · rw [building.read]
    · rw [count]

/-- Whatever has built the last tick, the call accounts for the others exactly
when nothing divides by zero and the counts are right. -/
theorem accounts_of_endsBuilt {before : PacketRecvStats} (given : args.stats = some before)
    {earlier : List (Arrivals dataId)} {last : Arrivals dataId} (rest : List Recv)
    (ends : EndsBuilt args last bufs bytes
      (feed (round args) (start args) ((stream (earlier ++ [last])).map Packet.recv))) :
    Accounts args before earlier last rest ↔
      ¬ Divides args ∧ bufs = earlier.length ∧ bytes = (earlier.map Arrivals.total).sum := by
  obtain ⟨divided, returned⟩ := endsBuilt_returns given ends
  unfold Accounts getCompletePacketizedBuffer
  by_cases divides : Divides args
  · rw [feed_append_of_left (divided divides)]
    simp [divides]
  · obtain ⟨outcome, after, run, ret, tick, stats, counts⟩ := returned divides
    rw [feed_append_of_left run]
    constructor
    · intro accounts
      obtain ⟨other, otherAfter, same, -, -, otherStats, right, rightBytes, -⟩ := accounts
      obtain ⟨sameExit, -⟩ := Fed.left.inj same
      rw [← Exit.returned.inj sameExit, stats, Option.some.injEq] at otherStats
      subst otherStats
      refine ⟨divides, ?_, ?_⟩
      · rw [counts.1] at right
        omega
      · rw [counts.2.1] at rightBytes
        omega
    · intro right
      obtain ⟨-, rfl, rfl⟩ := right
      exact ⟨outcome, after, rfl, ret, tick, stats, counts⟩

/-- A call that ends because its buffer is too small does not. -/
theorem not_accounts_of_endsTooSmall (before : PacketRecvStats)
    {earlier : List (Arrivals dataId)} {last : Arrivals dataId} (rest : List Recv)
    (ends : EndsTooSmall
      (feed (round args) (start args) ((stream (earlier ++ [last])).map Packet.recv))) :
    ¬ Accounts args before earlier last rest := by
  intro accounts
  obtain ⟨outcome, unread, run, code⟩ := ends
  obtain ⟨other, -, same, ret, -⟩ := accounts
  unfold getCompletePacketizedBuffer at same
  rw [feed_append_of_left run] at same
  obtain ⟨sameExit, -⟩ := Fed.left.inj same
  rw [Exit.returned.inj sameExit, ret, bufTooSmall] at code
  omega

/-- A call that builds another tick does not either. -/
theorem not_accounts_of_endsBuilt {before : PacketRecvStats} (given : args.stats = some before)
    {earlier : List (Arrivals dataId)} {last : Arrivals dataId} (rest : List Recv)
    (different : arrivals.tick ≠ last.tick) {read : List Packet} (unread : List Packet)
    (split : stream (earlier ++ [last]) = read ++ unread)
    (ends : EndsBuilt args arrivals bufs bytes
      (feed (round args) (start args) (read.map Packet.recv))) :
    ¬ Accounts args before earlier last rest := by
  intro accounts
  obtain ⟨divided, returned⟩ := endsBuilt_returns given ends
  obtain ⟨other, -, same, -, tick, -⟩ := accounts
  unfold getCompletePacketizedBuffer at same
  rw [split, List.map_append, List.append_assoc] at same
  by_cases divides : Divides args
  · rw [feed_append_of_left (divided divides)] at same
    cases same
  · obtain ⟨outcome, after, run, -, otherTick, -⟩ := returned divides
    rw [feed_append_of_left run] at same
    obtain ⟨sameExit, -⟩ := Fed.left.inj same
    rw [Exit.returned.inj sameExit, tick] at otherTick
    exact different otherTick.symm

theorem accounts_nil {before : PacketRecvStats} (given : args.stats = some before)
    {last : Arrivals dataId} (whole : last.Whole) (rest : List Recv) :
    Accounts args before [] last rest ↔ Accountable args [] last := by
  have taken := feed_taken_whole (takes_start args (.inl whole.1)) whole.2
  have only : stream ([] ++ [last]) = last.packets := by simp [stream]
  rw [← only] at taken
  by_cases room : Session.Roomy args.bufLen (stream ([] ++ [last]))
  · rw [accounts_of_endsBuilt given rest (taken.1 room)]
    constructor
    · intro right
      refine ⟨right.1, ?_, .nil, nofun⟩
      rw [List.nil_append, fits_cons]
      exact ⟨fun _ => only ▸ room, by simp [Fits]⟩
    · intro accountable
      exact ⟨accountable.whole, rfl, rfl⟩
  · constructor
    · intro accounts
      exact absurd accounts (not_accounts_of_endsTooSmall before rest (taken.2 room))
    · intro accountable
      exact absurd (only ▸ accountable.fits last (by simp) whole.1) room

/-- The counts after a first tick are right exactly when all are counted. -/
theorem counted_right (pending : Option Nat) (others : List (Arrivals dataId)) :
    ((counted pending others).length = pending.toList.length + others.length ∧
      (counted pending others).sum =
        pending.toList.sum + (others.map Arrivals.total).sum) ↔
      (pending.isSome → ∀ arrivals ∈ others, arrivals.Begun) ∧
        others.Pairwise fun before after => before.Begun → after.Begun := by
  rw [← counted_length_iff]
  constructor
  · exact fun right => right.1
  · intro right
    refine ⟨right, ?_⟩
    rw [counted_eq pending others ((counted_length_iff pending others).mp right),
      List.sum_append]

section Cons

variable {before : PacketRecvStats} (given : args.stats = some before)
  {first last : Arrivals dataId} {others : List (Arrivals dataId)}
  (distinct : ((first :: others ++ [last]).map Arrivals.tick).Nodup)
  (notWhole : ∀ arrivals ∈ first :: others, ¬ arrivals.Whole) (whole : last.Whole)
  (rest : List Recv)

theorem stream_cons (first last : Arrivals dataId) (others : List (Arrivals dataId)) :
    (stream (first :: others ++ [last])).map Packet.recv =
      first.packets.map Packet.recv ++ (stream (others ++ [last])).map Packet.recv := by
  simp [stream]

include given distinct notWhole whole

/-- What the ticks behind the first one lead to. -/
theorem accounts_behind {after : State}
    (run : feed (round args) (start args) (first.packets.map Packet.recv) = .waiting after)
    (between : Between args dataId first.tick pending bufs bytes after) :
    Accounts args before (first :: others) last rest ↔
      ¬ Divides args ∧ Fits args (others ++ [last]) ∧
        bufs + (counted pending others).length = (others.length + 1 : Nat) ∧
        bytes + (counted pending others).sum =
          (first.total + (others.map Arrivals.total).sum : Nat) := by
  have later := feed_stream between distinct.isChain
    (fun other member => notWhole other (by simp [member])) whole
  rw [← feed_append_of_waiting run, ← stream_cons] at later
  by_cases fits : Fits args (others ++ [last])
  · rw [accounts_of_endsBuilt given rest (later.1 fits)]
    simp [fits]
  · have tooSmall := not_accounts_of_endsTooSmall before rest (later.2 fits)
    simp [fits, tooSmall]

/-- A first tick that the call does not take is counted at once. -/
theorem accounts_of_passed (notBegun : ¬ first.Begun) (notSentinel : first.tick ≠ uintMax) :
    Accounts args before (first :: others) last rest ↔
      Accountable args (first :: others) last := by
  obtain ⟨after, run, between⟩ := feed_notBegun (between_start args dataId) notSentinel notBegun
  have right := counted_right none others
  simp only [Option.toList_none, List.length_nil, Nat.zero_add, List.sum_nil, Option.isSome_none,
    Bool.false_eq_true, false_implies, true_and] at right
  rw [accounts_behind given distinct notWhole whole rest run between]
  constructor
  · intro behind
    obtain ⟨whole, fits, bufs, bytes⟩ := behind
    have inOrder := right.mp ⟨by omega, by omega⟩
    refine ⟨whole, (fits_cons _ _).mpr ⟨fun begun => absurd begun notBegun, fits⟩,
      List.pairwise_cons.mpr ⟨fun _ _ begun => absurd begun notBegun, inOrder⟩, ?_⟩
    intro head tail same sentinel
    obtain ⟨rfl, -⟩ := List.cons.inj same
    exact absurd sentinel notSentinel
  · intro accountable
    obtain ⟨bufs, bytes⟩ := right.mpr (List.pairwise_cons.mp accountable.inOrder).2
    have fits : Fits args (others ++ [last]) := ((fits_cons _ _).mp accountable.fits).2
    exact ⟨accountable.whole, fits, by omega, by omega⟩

/-- A first tick that the call takes is counted when the next begins. -/
theorem accounts_of_taken (opens : first.Begun ∨ first.tick = uintMax)
    (missing : ¬ first.AllReceived) :
    Accounts args before (first :: others) last rest ↔
      Accountable args (first :: others) last := by
  have taken := feed_taken_partly (takes_start args opens) missing
  by_cases room : Session.Roomy args.bufLen first.packets
  · obtain ⟨after, run, between⟩ := taken.1 room
    have right := counted_right (some first.total) others
    simp only [Option.toList_some, List.length_cons, List.length_nil, Nat.zero_add, List.sum_cons,
      List.sum_nil, Nat.add_zero, Option.isSome_some, true_implies] at right
    rw [accounts_behind given distinct notWhole whole rest run between]
    constructor
    · intro behind
      obtain ⟨whole, fits, bufs, bytes⟩ := behind
      obtain ⟨follow, inOrder⟩ := right.mp ⟨by omega, by omega⟩
      refine ⟨whole, (fits_cons _ _).mpr ⟨fun _ => room, fits⟩,
        List.pairwise_cons.mpr ⟨fun other member _ => follow other member, inOrder⟩, ?_⟩
      intro head tail same sentinel
      obtain ⟨rfl, rfl⟩ := List.cons.inj same
      exact ⟨room, missing, follow⟩
    · intro accountable
      obtain ⟨here, inOrder⟩ := List.pairwise_cons.mp accountable.inOrder
      have follow : ∀ other ∈ others, other.Begun := by
        rcases opens with begun | sentinel
        · exact fun other member => here other member begun
        · exact (accountable.sentinel first others rfl sentinel).2.2
      obtain ⟨bufs, bytes⟩ := right.mpr ⟨follow, inOrder⟩
      have fits : Fits args (others ++ [last]) := ((fits_cons _ _).mp accountable.fits).2
      exact ⟨accountable.whole, fits, by omega, by omega⟩
  · have ends := endsTooSmall_append ((stream (others ++ [last])).map Packet.recv) (taken.2 room)
    rw [← stream_cons] at ends
    constructor
    · intro accounts
      exact absurd accounts (not_accounts_of_endsTooSmall before rest ends)
    · intro accountable
      rcases opens with begun | sentinel
      · exact absurd (accountable.fits first (by simp) begun) room
      · exact absurd (accountable.sentinel first others rfl sentinel).1 room

omit notWhole whole in
/-- A first tick that is `UINT_MAX` and received whole, in another order, is
returned. -/
theorem accounts_of_sentinel (sentinel : first.tick = uintMax) (all : first.AllReceived) :
    Accounts args before (first :: others) last rest ↔
      Accountable args (first :: others) last := by
  have taken := feed_taken_whole (takes_start args (.inr sentinel)) all
  have never : ¬ Accounts args before (first :: others) last rest := by
    by_cases room : Session.Roomy args.bufLen first.packets
    · have different : first.tick ≠ last.tick := by
        intro same
        simp [same] at distinct
      exact not_accounts_of_endsBuilt given rest different (stream (others ++ [last]))
        (by simp [stream]) (taken.1 room)
    · have ends := endsTooSmall_append ((stream (others ++ [last])).map Packet.recv) (taken.2 room)
      rw [← stream_cons] at ends
      exact not_accounts_of_endsTooSmall before rest ends
  constructor
  · exact fun accounts => absurd accounts never
  · intro accountable
    exact absurd all (accountable.sentinel first others rfl sentinel).2.1

end Cons

/-- The discard statistics of a call. On packets of one source that arrive tick
after tick without duplicates, where only the last tick is completely received
starting with its packet at offset 0, the call returns it and accounts for all
ticks exactly when they are accountable. -/
theorem accounts_iff (args : CompleteArgs) (before : PacketRecvStats)
    (given : args.stats = some before) (dataId : UInt16) (earlier : List (Arrivals dataId))
    (last : Arrivals dataId) (distinct : ((earlier ++ [last]).map Arrivals.tick).Nodup)
    (notWhole : ∀ arrivals ∈ earlier, ¬ arrivals.Whole) (whole : last.Whole)
    (rest : List Recv) :
    Accounts args before earlier last rest ↔ Accountable args earlier last := by
  cases earlier with
  | nil => exact accounts_nil given whole rest
  | cons first others =>
      have firstNotWhole := notWhole first (by simp)
      by_cases begun : first.Begun
      · exact accounts_of_taken given distinct notWhole whole rest (.inl begun)
          fun all => firstNotWhole ⟨begun, all⟩
      · by_cases sentinel : first.tick = uintMax
        · by_cases all : first.AllReceived
          · exact accounts_of_sentinel given distinct rest sentinel all
          · exact accounts_of_taken given distinct notWhole whole rest (.inr sentinel) all
        · exact accounts_of_passed given distinct notWhole whole rest begun sentinel

/-! ### Three ticks -/

/-- Two bytes in two packets. -/
def twoBytes : Transmission where
  version := 2
  reserved := 0
  chunks := [[1], [2]]
  versionNonneg := versionTwo_nonneg
  versionLt := versionTwo_lt
  hasChunks := by decide
  nonempty := by decide
  fits := by decide
  short := by decide

/-- Only the packet at an offset arrives. -/
def onlyOne (tick : UInt64) (piece : Placed UInt8) (isPiece : piece ∈ layout 0 twoBytes.chunks) :
    Arrivals 5 where
  tick := tick
  transmission := twoBytes
  first := twoBytes.packet tick 5 piece
  others := []
  nodup := by simp
  sent := by
    intro packet member
    rw [List.mem_singleton.mp member]
    exact List.mem_map_of_mem isPiece

/-- The packet at offset 0 of a tick arrives, and the other one does not. -/
def begunTick (tick : UInt64) : Arrivals 5 := onlyOne tick ⟨0, [1]⟩ (by decide)

/-- The packet at offset 0 of a tick does not arrive. -/
def lostTick (tick : UInt64) : Arrivals 5 := onlyOne tick ⟨1, [2]⟩ (by decide)

/-- Both packets of a tick arrive. -/
def wholeTick (tick : UInt64) : Arrivals 5 where
  tick := tick
  transmission := twoBytes
  first := twoBytes.packet tick 5 ⟨0, [1]⟩
  others := [twoBytes.packet tick 5 ⟨1, [2]⟩]
  nodup := by simp [Transmission.packet]
  sent := fun _ member => member

theorem wholeTick_whole (tick : UInt64) : (wholeTick tick).Whole :=
  ⟨rfl, List.Perm.refl _⟩

theorem onlyOne_not_allReceived (tick : UInt64) (piece : Placed UInt8)
    (isPiece : piece ∈ layout 0 twoBytes.chunks) :
    ¬ (onlyOne tick piece isPiece).AllReceived := by
  intro all
  have size := all.length_eq
  simp [Arrivals.packets, onlyOne, Transmission.packets, twoBytes, layout] at size

/-- A call with a buffer of four bytes and statistics that start from zero. -/
def countingArgs : CompleteArgs where
  host := .little
  dataBuf := fun _ => 0
  bufLen := 4
  tick := 0xFFFFFFFFFFFFFFFF
  wantsDataId := true
  stats := some ⟨0, 0, 0, 0, 0, 0, 0, 0, 0⟩
  tickPrescale := 1

/-- Ticks of which one packet arrives are not whole. -/
theorem onlyOne_not_whole {ticks : List (Arrivals 5)}
    (single : ∀ arrivals ∈ ticks, ∃ tick piece isPiece, arrivals = onlyOne tick piece isPiece) :
    ∀ arrivals ∈ ticks, ¬ arrivals.Whole := by
  intro arrivals member whole
  obtain ⟨tick, piece, isPiece, rfl⟩ := single arrivals member
  exact onlyOne_not_allReceived tick piece isPiece whole.2

theorem accounts_sample :
    Accounts countingArgs ⟨0, 0, 0, 0, 0, 0, 0, 0, 0⟩ [lostTick 1, begunTick 2] (wholeTick 3)
      [] := by
  apply (accounts_iff countingArgs _ rfl 5 [lostTick 1, begunTick 2] (wholeTick 3) (by decide) _
    (wholeTick_whole 3) []).mpr
  · refine ⟨?_, ?_, by decide, ?_⟩
    · intro divides
      exact divides.2.1 rfl
    · unfold Fits Session.Roomy
      decide +kernel
    · intro first others same sentinel
      obtain ⟨rfl, -⟩ := List.cons.inj same
      exact absurd sentinel (by decide)
  · apply onlyOne_not_whole
    intro arrivals member
    rcases List.mem_pair.mp member with rfl | rfl
    · exact ⟨_, _, _, rfl⟩
    · exact ⟨_, _, _, rfl⟩

/-- A tick that is begun and then abandoned for one that is not begun is missing
from the statistics. -/
theorem not_accounts_sample :
    (([begunTick 1, lostTick 2] ++ [wholeTick 3]).map Arrivals.tick).Nodup ∧
      (∀ arrivals ∈ [begunTick 1, lostTick 2], ¬ arrivals.Whole) ∧ (wholeTick 3).Whole ∧
      ¬ Accounts countingArgs ⟨0, 0, 0, 0, 0, 0, 0, 0, 0⟩ [begunTick 1, lostTick 2] (wholeTick 3)
        [] := by
  have notWhole : ∀ arrivals ∈ [begunTick 1, lostTick 2], ¬ arrivals.Whole := by
    apply onlyOne_not_whole
    intro arrivals member
    rcases List.mem_pair.mp member with rfl | rfl
    · exact ⟨_, _, _, rfl⟩
    · exact ⟨_, _, _, rfl⟩
  refine ⟨by decide, notWhole, wholeTick_whole 3, ?_⟩
  intro accounts
  have accountable := (accounts_of_taken rfl (by decide) notWhole (wholeTick_whole 3) []
    (.inl rfl) (onlyOne_not_allReceived _ _ _)).mp accounts
  have inOrder := accountable.inOrder
  revert inOrder
  decide

end Complete

end Dift.Assemble
