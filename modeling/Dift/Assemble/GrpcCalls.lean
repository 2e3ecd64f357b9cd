import Dift.Assemble.Receptions
import Dift.Assemble.Successive
import Mathlib.Data.List.DropRight

/-!
Owns calls of `getReassembledBuffer` one after the other over one socket, each
with the vector that the one before has left. Of the buffers of one source that
`sendPacketizedBuf` has cut and that arrive one after the other, with packets
missing and out of order within each, the calls return exactly those that are
complete and begin with their first packet. A returned buffer holds the data of
its packets except where the record of arrivals was written over it, no copy of
any call leaves the vector, and the statistics count the returned buffers and,
but for those begun before one that is not, the discarded ones.
-/

namespace Dift.Assemble

open Dift.Foundation
open Dift.Wire
open Dift.Packetize.Grpc

namespace Reassembled

variable {args : ReassembledArgs} {dataId : UInt16} {reception : Reception dataId}
  {books : List (Reception dataId)} {taken : List Sent} {sent : Sent} {state : State}

/-! ### From buffer to buffer -/

/-- The variables between two buffers: one is still in building, or none is. -/
structure Between (args : ReassembledArgs) (tick : UInt64) (pending : Option (Reception dataId))
    (books : List (Reception dataId)) (state : State) : Prop extends
    Booked args books state where
  current : state.prevTick = tick
  phase : match pending with
    | none => state.veryFirstRead = true
    | some reception => state.veryFirstRead = false ∧ state.srcId = dataId ∧
        state.length = reception.call.dataLen ∧ state.totalPkts = reception.call.totalPackets

theorem Building.between (building : Building args reception books taken state) :
    Between args reception.call.tick (some reception) books state where
  toBooked := building.toBooked
  current := building.current
  phase := ⟨building.past, building.source, building.length, building.total⟩

theorem between_start (args : ReassembledArgs) (dataId : UInt16) :
    Between args Complete.uintMax (none : Option (Reception dataId)) [] (start args) where
  bufs := rfl
  bytes := rfl
  packets := rfl
  stats := rfl
  known := le_rfl
  grown := le_rfl
  current := rfl
  phase := rfl

variable {tick : UInt64} {pending : Option (Reception dataId)}

/-- A new buffer that is begun takes its first packet, and one in building is
discarded. -/
theorem takes_begun (between : Between args tick pending books state)
    (newTick : reception.call.tick ≠ tick) (begun : reception.Begun)
    (fits : pending.isSome → reception.call.dataLen.toNat ≤ args.bufLen) :
    Takes args reception (books ++ pending.toList) [] state reception.first := by
  have member : reception.first ∈ reception.packets := List.mem_cons_self
  obtain ⟨carries, described⟩ := received_member member state args
  have new : ((state.received reception.first.bytes).header args).tick ≠ state.prevTick := by
    rw [carries.tick, between.current]
    exact newTick
  have offset : ((state.received reception.first.bytes).header args).offset = 0 := by
    have isFirst : reception.first.index = 0 := begun
    rw [carries.offset, isFirst]
    rfl
  have source := carries.dataId.trans reception.source
  cases pending with
  | none =>
      have first : state.veryFirstRead = true := between.phase
      have planned := (plan_first (state.received reception.first.bytes) _
        ((state.received reception.first.bytes).description args) first).trans
          (planTick_begin _ new offset first)
      rw [Option.toList_none, List.append_nil]
      exact ⟨_, planned, { between.toBooked with
        kept := rfl
        source := source
        length := carries.length
        total := by rw [described]
        counted := rfl
        read := rfl
        held := ⟨_, rfl⟩
        later := fun notNil => absurd rfl notNil
        room := fun past => Bool.noConfusion (first.symm.trans past) }⟩
  | some unfinished =>
      obtain ⟨past, sameSource, length, total⟩ := between.phase
      have planned := (plan_past (state.received reception.first.bytes)
        ((state.received reception.first.bytes).description args) past
        (source.trans sameSource.symm)).trans (planTick_replace _ new offset past)
      refine ⟨_, planned, ⟨?_, ?_, ?_, between.stats, between.known, between.grown⟩, rfl, source,
        carries.length, by rw [described], rfl, rfl, ⟨_, rfl⟩, fun notNil => absurd rfl notNil,
        fun _ => (fits rfl).trans between.grown⟩
      · show state.discardedBufs + 1 = _
        simp [between.bufs]
      · show state.discardedBytes + (state.length.toNat : Int) = _
        simp [between.bytes, length]
      · show state.discardedPackets + (state.totalPkts.toNat : Int) = _
        simp [between.packets, total, Reception.total]

/-- A packet that is passed over is not copied. -/
theorem round_pass {next : State}
    (passes : plan (state.received sent.bytes) ((state.received sent.bytes).header args)
      ((state.received sent.bytes).description args) = .pass next) :
    CopiesInside args state sent.recv ∧ round args state sent.recv = .again next := by
  constructor
  · intro copy copies
    obtain ⟨planned, -, -⟩ := roundCopy_sent state sent copies
    have long : ¬ (sent.bytes.take 9100).length < reHeaderBytes := by
      rw [sent.bytes_take, sent.bytes_length]
      omega
    simp only [roundCopy, Sent.recv, if_neg long, passes, reduceCtorEq] at copies
  · rw [round_sent, handle, passes]

/-- What a call has come to that passed over some packets. -/
def Passes (args : ReassembledArgs) (tick : UInt64) (books : List (Reception dataId))
    (state : State) (packets : List Sent) : Prop :=
  Along (round args) (CopiesInside args) state (packets.map Sent.recv) ∧
    ∃ final, feed (round args) state (packets.map Sent.recv) = .waiting final ∧
      Between args tick (none : Option (Reception dataId)) books final

/-- A packet of a tick that is being thrown away. -/
theorem plan_dumped (between : Between args reception.call.tick none books state)
    (dumps : state.dumpTick = true) (member : sent ∈ reception.packets) :
    ∃ next, plan (state.received sent.bytes) ((state.received sent.bytes).header args)
        ((state.received sent.bytes).description args) = .pass next ∧
      Between args reception.call.tick (none : Option (Reception dataId)) books next ∧
      next.dumpTick = true := by
  obtain ⟨carries, -⟩ := received_member member state args
  have first : state.veryFirstRead = true := between.phase
  have planned := (plan_first (state.received sent.bytes) _
    ((state.received sent.bytes).description args) first).trans
      (planTick_dumped _ (carries.tick.trans between.current.symm) dumps)
  exact ⟨_, planned, ⟨⟨between.bufs, between.bytes, between.packets, between.stats,
    between.known, between.grown⟩, between.current, rfl⟩, dumps⟩

theorem feed_dumped {packets : List Sent} (members : ∀ sent ∈ packets, sent ∈ reception.packets)
    (between : Between args reception.call.tick none books state)
    (dumps : state.dumpTick = true) : Passes args reception.call.tick books state packets := by
  induction packets generalizing state with
  | nil => exact ⟨trivial, state, rfl, between⟩
  | cons sent rest inductionHypothesis =>
      obtain ⟨next, planned, stays, dumpsOn⟩ :=
        plan_dumped between dumps (members sent List.mem_cons_self)
      obtain ⟨inside, step⟩ := round_pass planned
      obtain ⟨along, final, run, after⟩ := inductionHypothesis
        (fun other member => members other (List.mem_cons_of_mem _ member)) stays dumpsOn
      exact ⟨(along_cons_of_again step _).mpr ⟨inside, along⟩, final,
        (feed_cons_of_again step _).trans run, after⟩

/-- A new buffer that is not begun is discarded whole, and nothing else is. -/
theorem feed_notBegun (between : Between args tick pending books state)
    (newTick : reception.call.tick ≠ tick) (notBegun : ¬ reception.Begun) :
    Passes args reception.call.tick (books ++ [reception]) state reception.packets := by
  have member : reception.first ∈ reception.packets := List.mem_cons_self
  obtain ⟨carries, described⟩ := received_member member state args
  have same := reception.same reception.first List.mem_cons_self
  have new : ((state.received reception.first.bytes).header args).tick ≠ state.prevTick := by
    rw [carries.tick, between.current]
    exact newTick
  have offset : ((state.received reception.first.bytes).header args).offset ≠ 0 := by
    intro zero
    have place := reception.first.offset_toNat
    rw [same, ← carries.offset, zero] at place
    have sizes := reception.first.sizes.1
    rw [same] at sizes
    rcases Nat.mul_eq_zero.mp place.symm with isFirst | noSize
    · exact notBegun isFirst
    · omega
  -- Whatever came before, the first packet begins the dump and is the one counted.
  have passes : ∃ next, plan (state.received reception.first.bytes)
      ((state.received reception.first.bytes).header args)
      ((state.received reception.first.bytes).description args) = .pass next ∧
      Between args reception.call.tick none (books ++ [reception]) next ∧
      next.dumpTick = true := by
    have bufs : state.discardedBufs + 1 = (books ++ [reception]).length := by
      simp [between.bufs]
    have bytes : state.discardedBytes +
        (((state.received reception.first.bytes).header args).length.toNat : Int) =
          ((books ++ [reception]).map fun one => one.call.dataLen.toNat).sum := by
      simp [between.bytes, carries.length]
    have packets : state.discardedPackets +
        (((state.received reception.first.bytes).description args).totalPkts.toNat : Int) =
          ((books ++ [reception]).map Reception.total).sum := by
      simp [between.packets, described, Reception.total]
    cases pending with
    | none =>
        have first : state.veryFirstRead = true := between.phase
        have planned := (plan_first (state.received reception.first.bytes) _
          ((state.received reception.first.bytes).description args) first).trans
            (planTick_missing _ new offset)
        exact ⟨_, planned, ⟨⟨bufs, bytes, packets, between.stats, between.known, between.grown⟩,
          carries.tick, rfl⟩, rfl⟩
    | some unfinished =>
        obtain ⟨past, sameSource, -⟩ := between.phase
        have planned := (plan_past (state.received reception.first.bytes)
          ((state.received reception.first.bytes).description args) past
          ((carries.dataId.trans reception.source).trans sameSource.symm)).trans
            (planTick_missing _ new offset)
        exact ⟨_, planned, ⟨⟨bufs, bytes, packets, between.stats, between.known, between.grown⟩,
          carries.tick, rfl⟩, rfl⟩
  obtain ⟨next, planned, after, dumps⟩ := passes
  obtain ⟨inside, step⟩ := round_pass planned
  have members : ∀ sent ∈ reception.others, sent ∈ reception.packets := fun sent later =>
    List.mem_cons_of_mem _ later
  obtain ⟨along, final, run, stays⟩ := feed_dumped members after dumps
  exact ⟨(along_cons_of_again step _).mpr ⟨inside, along⟩, final,
    (feed_cons_of_again step _).trans run, stays⟩

/-! ### A stream of buffers -/

/-- The packets of buffers that arrive one after the other. -/
def stream (ticks : List (Reception dataId)) : List Sent :=
  ticks.flatMap Reception.packets

/-- A buffer that is begun behind an unfinished one is not longer than the
vector was, as its length is not compared with the capacity. -/
def Fits (args : ReassembledArgs) (ticks : List (Reception dataId)) : Prop :=
  ticks.IsChain fun before after => before.Begun → ¬ before.Whole → after.Begun →
    after.call.dataLen.toNat ≤ args.bufLen

instance (args : ReassembledArgs) (ticks : List (Reception dataId)) :
    Decidable (Fits args ticks) :=
  inferInstanceAs (Decidable (List.IsChain _ _))

/-- The buffers that are counted as discarded: those that are not whole, but for
one that is begun and has one behind it that is not. -/
def discarded : List (Reception dataId) → List (Reception dataId)
  | [] => []
  | one :: rest =>
      if one.Whole ∨ one.Begun ∧ ¬ ∃ next ∈ rest.head?, next.Begun then discarded rest
      else one :: discarded rest

/-- What a buffer that is not whole leaves unfinished. -/
def Reception.unfinished (reception : Reception dataId) : Option (Reception dataId) :=
  if reception.Begun then some reception else none

/-- What is discarded when a buffer that is not whole arrives. -/
def Reception.discards (reception : Reception dataId) (pending : Option (Reception dataId)) :
    List (Reception dataId) :=
  if reception.Begun then pending.toList else [reception]

/-- An unfinished buffer was begun. -/
def Unfinished (pending : Option (Reception dataId)) : Prop :=
  ∀ one ∈ pending, one.Begun ∧ ¬ one.Whole

theorem unfinished_of_notWhole (notWhole : ¬ reception.Whole) :
    Unfinished reception.unfinished := by
  intro one isOne
  unfold Reception.unfinished at isOne
  split_ifs at isOne with begun
  · cases isOne
    exact ⟨begun, notWhole⟩
  · cases isOne

theorem discarded_notWhole (unfinished : Unfinished pending) (notWhole : ¬ reception.Whole)
    (rest : List (Reception dataId)) :
    discarded (pending.toList ++ reception :: rest) =
      reception.discards pending ++ discarded (reception.unfinished.toList ++ rest) := by
  have later : discarded (pending.toList ++ reception :: rest) =
      (if reception.Begun then pending.toList else []) ++ discarded (reception :: rest) := by
    cases pending with
    | none => simp
    | some one =>
        obtain ⟨begun, missing⟩ := unfinished one rfl
        by_cases isBegun : reception.Begun <;> simp [discarded, begun, missing, isBegun]
  rw [later]
  unfold Reception.discards Reception.unfinished
  by_cases begun : reception.Begun
  · simp [begun]
  · simp [begun, notWhole, discarded]

theorem discarded_whole (unfinished : Unfinished pending) (whole : reception.Whole)
    (rest : List (Reception dataId)) :
    discarded (pending.toList ++ reception :: rest) = pending.toList ++ discarded rest := by
  have begun := whole.1
  cases pending with
  | none => simp [discarded, whole]
  | some one =>
      obtain ⟨isBegun, missing⟩ := unfinished one rfl
      simp [discarded, begun, missing, whole]

/-- A buffer that is not whole is passed. -/
theorem feed_notWhole (least : 16 ≤ args.bufLen) (between : Between args tick pending books state)
    (newTick : reception.call.tick ≠ tick) (notWhole : ¬ reception.Whole)
    (fits : pending.isSome → reception.Begun → reception.call.dataLen.toNat ≤ args.bufLen) :
    Along (round args) (CopiesInside args) state (reception.packets.map Sent.recv) ∧
      ∃ final, feed (round args) state (reception.packets.map Sent.recv) = .waiting final ∧
        Between args reception.call.tick reception.unfinished
          (books ++ reception.discards pending) final := by
  unfold Reception.unfinished Reception.discards
  by_cases begun : reception.Begun
  · have took := feed_takes least
      (takes_begun between newTick begun fun isSome => fits isSome begun) (List.nil_append _)
    obtain ⟨final, building, run⟩ := took.few fun all => notWhole ⟨begun, all⟩
    rw [if_pos begun, if_pos begun]
    exact ⟨took.inside, final, run, building.between⟩
  · rw [if_neg begun, if_neg begun]
    exact feed_notBegun between newTick begun

/-- Behind a buffer that is not whole, the ones to come fit again. -/
theorem Fits.next {rest : List (Reception dataId)} (fits : Fits args (reception :: rest)) :
    Fits args (reception.unfinished.toList ++ rest) := by
  unfold Reception.unfinished
  by_cases begun : reception.Begun
  · rw [if_pos begun]
    exact fits
  · rw [if_neg begun]
    exact fits.of_cons

/-- The first buffer behind an unfinished one fits. -/
theorem Fits.first {rest : List (Reception dataId)}
    (fits : Fits args (pending.toList ++ reception :: rest)) (unfinished : Unfinished pending)
    (isSome : pending.isSome) (begun : reception.Begun) :
    reception.call.dataLen.toNat ≤ args.bufLen := by
  obtain ⟨one, rfl⟩ := Option.isSome_iff_exists.mp isSome
  obtain ⟨isBegun, missing⟩ := unfinished one rfl
  exact (List.isChain_cons_cons.mp fits).1 isBegun missing begun

theorem Fits.tail {rest : List (Reception dataId)}
    (fits : Fits args (pending.toList ++ rest)) : Fits args rest :=
  fits.right_of_append

theorem stream_cons (rest : List (Reception dataId)) :
    (stream (reception :: rest)).map Sent.recv =
      reception.packets.map Sent.recv ++ (stream rest).map Sent.recv := by
  simp [stream]

/-- What a call comes to with buffers of which the last one is whole. -/
structure Builds (args : ReassembledArgs) (last : Reception dataId)
    (books : List (Reception dataId)) (state : State) (socket : List Recv) : Prop where
  inside : Along (round args) (CopiesInside args) state socket
  returns : ∃ final header, Building args last books last.packets final ∧
    header.tick = last.call.tick ∧ header.dataId = dataId ∧
    feed (round args) state socket =
      .left (final.exit (Complete.finish args.toCompleteArgs final.toState header)) []

/-- A call over buffers of which only the last one is whole comes to it. -/
theorem builds_last (least : 16 ≤ args.bufLen) {earlier : List (Reception dataId)}
    {last : Reception dataId} (between : Between args tick pending books state)
    (unfinished : Unfinished pending)
    (changes : (tick :: (earlier ++ [last]).map fun one => one.call.tick).IsChain (· ≠ ·))
    (fits : Fits args (pending.toList ++ (earlier ++ [last])))
    (notWhole : ∀ one ∈ earlier, ¬ one.Whole) (whole : last.Whole) :
    Builds args last (books ++ discarded (pending.toList ++ (earlier ++ [last]))) state
      ((stream (earlier ++ [last])).map Sent.recv) := by
  induction earlier generalizing tick pending books state with
  | nil =>
      rw [List.nil_append] at changes fits ⊢
      have newTick := (List.isChain_cons_cons.mp changes).1.symm
      have took := feed_takes least
        (takes_begun between newTick whole.1 fun isSome => fits.first unfinished isSome whole.1)
        (List.nil_append _)
      have noMore : (stream [last]).map Sent.recv = last.packets.map Sent.recv := by
        simp [stream]
      rw [discarded_whole unfinished whole, discarded, List.append_nil, noMore]
      exact ⟨took.inside, took.all whole.2⟩
  | cons one rest inductionHypothesis =>
      obtain ⟨differs, laterChanges⟩ := List.isChain_cons_cons.mp changes
      have missing := notWhole one List.mem_cons_self
      obtain ⟨inside, next, run, nextBetween⟩ := feed_notWhole least between differs.symm missing
        fun isSome begun => fits.first unfinished isSome begun
      obtain ⟨later, final, header, building, sameTick, source, returns⟩ :=
        inductionHypothesis nextBetween (unfinished_of_notWhole missing) laterChanges
          fits.tail.next fun other member => notWhole other (List.mem_cons_of_mem _ member)
      rw [List.cons_append, discarded_notWhole unfinished missing, stream_cons, ← List.append_assoc]
      constructor
      · exact (along_append_of_waiting run _).mpr ⟨inside, later⟩
      · exact ⟨final, header, building, sameTick, source,
          (feed_append_of_waiting run _).trans returns⟩

/-- A call over buffers none of which is whole waits. -/
theorem feed_stream_waits (least : 16 ≤ args.bufLen) {ticks : List (Reception dataId)}
    (between : Between args tick pending books state) (unfinished : Unfinished pending)
    (changes : (tick :: ticks.map fun one => one.call.tick).IsChain (· ≠ ·))
    (fits : Fits args (pending.toList ++ ticks)) (notWhole : ∀ one ∈ ticks, ¬ one.Whole) :
    Along (round args) (CopiesInside args) state ((stream ticks).map Sent.recv) ∧
      ∃ final, feed (round args) state ((stream ticks).map Sent.recv) = .waiting final := by
  induction ticks generalizing tick pending books state with
  | nil => exact ⟨trivial, state, rfl⟩
  | cons one rest inductionHypothesis =>
      obtain ⟨differs, laterChanges⟩ := List.isChain_cons_cons.mp changes
      have missing := notWhole one List.mem_cons_self
      obtain ⟨inside, next, run, nextBetween⟩ := feed_notWhole least between differs.symm missing
        fun isSome begun => fits.first unfinished isSome begun
      obtain ⟨later, final, waits⟩ := inductionHypothesis nextBetween
        (unfinished_of_notWhole missing) laterChanges fits.tail.next
        fun other member => notWhole other (List.mem_cons_of_mem _ member)
      rw [stream_cons]
      exact ⟨(along_append_of_waiting run _).mpr ⟨inside, later⟩, final,
        (feed_append_of_waiting run _).trans waits⟩

/-! ### One call -/

/-- A call delivers a buffer. -/
structure Delivers (args : ReassembledArgs) (reception : Reception dataId)
    (outcome : ReassembledOutcome) : Prop where
  ret : outcome.ret = reception.call.dataLen.toNat
  tick : outcome.tick = reception.call.tick
  dataId : outcome.dataId = if args.wantsDataId then some dataId else none
  restored : Restores args.host reception.packets outcome.dataBuf

/-- The statistics, where they are taken, grow by the buffers that are accepted
and those that are discarded. -/
def Adds (before after : Option PacketRecvStats)
    (accepted dropped : List (Reception dataId)) : Prop :=
  ∀ old, before = some old → ∃ new, after = some new ∧
    new.acceptedBytes = old.acceptedBytes +
      ((accepted.map fun one => one.call.dataLen.toNat).sum : Nat) ∧
    new.acceptedPackets = old.acceptedPackets + ((accepted.map Reception.total).sum : Nat) ∧
    new.discardedBytes = old.discardedBytes +
      ((dropped.map fun one => one.call.dataLen.toNat).sum : Nat) ∧
    new.discardedPackets = old.discardedPackets + ((dropped.map Reception.total).sum : Nat) ∧
    new.discardedBuffers = old.discardedBuffers + dropped.length

theorem adds_nil (stats : Option PacketRecvStats) :
    Adds stats stats ([] : List (Reception dataId)) [] := by
  intro old given
  exact ⟨old, given, by simp, by simp, by simp, by simp, by simp⟩

theorem Adds.append {before middle after : Option PacketRecvStats}
    {accepted dropped moreAccepted moreDropped : List (Reception dataId)}
    (first : Adds before middle accepted dropped)
    (second : Adds middle after moreAccepted moreDropped) :
    Adds before after (accepted ++ moreAccepted) (dropped ++ moreDropped) := by
  intro old given
  obtain ⟨between, isBetween, bytes, packets, lostBytes, lostPackets, lost⟩ := first old given
  obtain ⟨new, isNew, moreBytes, morePackets, moreLostBytes, moreLostPackets, moreLost⟩ :=
    second between isBetween
  refine ⟨new, isNew, ?_, ?_, ?_, ?_, ?_⟩
  · rw [moreBytes, bytes, List.map_append, List.sum_append, Nat.cast_add, Int.add_assoc]
  · rw [morePackets, packets, List.map_append, List.sum_append, Nat.cast_add, Int.add_assoc]
  · rw [moreLostBytes, lostBytes, List.map_append, List.sum_append, Nat.cast_add, Int.add_assoc]
  · rw [moreLostPackets, lostPackets, List.map_append, List.sum_append, Nat.cast_add,
      Int.add_assoc]
  · rw [moreLost, lost, List.length_append, Nat.cast_add, Int.add_assoc]

/-- What a call returns that has come to a whole buffer. -/
theorem Builds.outcome {last : Reception dataId} {socket : List Recv}
    (builds : Builds args last books (start args) socket) (whole : last.Whole)
    (prescaled : args.tickPrescale ≠ 0) :
    ∃ outcome, getReassembledBuffer args socket = .left (.returned outcome) [] ∧
      Delivers args last outcome ∧ Adds args.stats outcome.stats [last] books ∧
      args.bufLen ≤ outcome.capacity := by
  obtain ⟨final, header, building, sameTick, source, returns⟩ := builds.returns
  have noDivision : ¬ Complete.Divides args.toCompleteArgs := fun divides => prescaled divides.2.2
  obtain ⟨outcome, finishes, finished⟩ :=
    Complete.finish_finished header noDivision building.stats
  have length := Reception.weight_of_allReceived whole.2
  have count : final.pktCount.toNat = last.total := by
    have all := whole.2.length_eq
    have small := last.total_lt
    rw [List.length_map, List.length_range] at all
    rw [building.counted, all]
    exact UInt32.toNat_ofNat_of_lt' small
  refine ⟨⟨outcome, final.capacity⟩, ?_, ⟨?_, finished.tick.trans sameTick, ?_, ?_⟩, ?_,
    building.grown⟩
  · rw [getReassembledBuffer, returns, finishes]
    rfl
  · exact (finished.ret.trans building.read).trans (congrArg Nat.cast length)
  · rw [← source]
    exact finished.dataId
  · obtain ⟨before, held⟩ := building.held
    show Restores args.host last.packets outcome.dataBuf
    rw [finished.dataBuf, held]
    exact restores_paste last.same last.distinct before
  · intro old given
    obtain ⟨new, isNew, bytes, packets, lostBytes, lostPackets, lost, -⟩ :=
      finished.stats old given
    refine ⟨new, isNew, ?_, ?_, ?_, ?_, ?_⟩
    · rw [bytes, building.read, length, List.map_singleton, List.sum_singleton]
    · rw [packets, count, List.map_singleton, List.sum_singleton]
    · rw [lostBytes, building.bytes]
    · rw [lostPackets, building.toBooked.packets]
    · rw [lost, building.bufs]

/-- The ticks change at every buffer, also from the one a call starts with. -/
theorem changes_start {ticks : List (Reception dataId)}
    (changes : (ticks.map fun one => one.call.tick).IsChain (· ≠ ·))
    (noSentinel : ∀ one ∈ ticks, one.call.tick ≠ Complete.uintMax) :
    (Complete.uintMax :: ticks.map fun one => one.call.tick).IsChain (· ≠ ·) := by
  cases ticks with
  | nil => exact .singleton _
  | cons one rest =>
      exact List.isChain_cons_cons.mpr ⟨(noSentinel one List.mem_cons_self).symm, changes⟩

/-- The buffers up to the last one that is whole. -/
def settled (ticks : List (Reception dataId)) : List (Reception dataId) :=
  ticks.rdropWhile fun one => ¬ one.Whole

theorem settled_append {last : Reception dataId} (whole : last.Whole)
    (earlier rest : List (Reception dataId)) :
    settled (earlier ++ last :: rest) = earlier ++ [last] ++ settled rest := by
  unfold settled List.rdropWhile
  rw [List.reverse_append, List.reverse_cons, List.append_assoc, List.dropWhile_append]
  split_ifs with isEmpty
  · rw [List.isEmpty_iff.mp isEmpty]
    simp [whole]
  · simp

theorem settled_of_notWhole {ticks : List (Reception dataId)}
    (notWhole : ∀ one ∈ ticks, ¬ one.Whole) : settled ticks = [] := by
  rw [settled, List.rdropWhile_eq_nil_iff]
  intro one member
  exact decide_eq_true (notWhole one member)

theorem discarded_append {last : Reception dataId} (whole : last.Whole)
    (earlier rest : List (Reception dataId)) :
    discarded (earlier ++ [last] ++ rest) = discarded (earlier ++ [last]) ++ discarded rest := by
  induction earlier with
  | nil => simp [discarded, whole]
  | cons one others inductionHypothesis =>
      have sameHead : (others ++ [last] ++ rest).head? = (others ++ [last]).head? := by
        cases others <;> rfl
      rw [List.cons_append, List.cons_append, discarded, sameHead, inductionHypothesis, discarded]
      split_ifs
      · rfl
      · rfl

/-! ### All calls -/

/-- What a call finds besides its arguments: what new storage and its packet
array hold. -/
structure Found where
  fresh : Mem
  pkt : Mem

/-- The arguments of the call after one that has returned a buffer: the vector
as it was left, and the statistics. -/
def next (args : ReassembledArgs) (outcome : ReassembledOutcome) (found : Found) :
    ReassembledArgs :=
  { args with
    toCompleteArgs :=
      { args.toCompleteArgs.next outcome.toOutcome with bufLen := outcome.capacity }
    fresh := found.fresh
    pkt := found.pkt }

/-- Calls that each return a buffer, and what the calls after each of them find:
what they return, the arguments of the next call and what is left to read. -/
def successive : List Found → ReassembledArgs → List Recv →
    Option (List ReassembledOutcome × ReassembledArgs × List Recv)
  | [], args, socket => some ([], args, socket)
  | found :: others, args, socket =>
      match getReassembledBuffer args socket with
      | .left (.returned outcome) rest =>
          if outcome.ret < 0 then none
          else (successive others (next args outcome found) rest).map fun later =>
            (outcome :: later.1, later.2)
      | _ => none

/-- No copy of these calls nor of the one after them leaves the vector. -/
def Inside : List Found → ReassembledArgs → List Recv → Prop
  | [], args, socket => Along (round args) (CopiesInside args) (start args) socket
  | found :: others, args, socket =>
      Along (round args) (CopiesInside args) (start args) socket ∧
        ∀ outcome rest, getReassembledBuffer args socket = .left (.returned outcome) rest →
          Inside others (next args outcome found) rest

theorem successive_cons {socket rest : List Recv} {outcome : ReassembledOutcome}
    (returns : getReassembledBuffer args socket = .left (.returned outcome) rest)
    (success : 0 ≤ outcome.ret) (found : Found) (others : List Found) :
    successive (found :: others) args socket =
      (successive others (next args outcome found) rest).map fun later =>
        (outcome :: later.1, later.2) := by
  rw [successive, returns]
  exact if_neg (not_lt.mpr success)

theorem stream_append (first second : List (Reception dataId)) :
    (stream (first ++ second)).map Sent.recv =
      (stream first).map Sent.recv ++ (stream second).map Sent.recv := by
  simp [stream]

theorem Fits.mono {more : ReassembledArgs} {ticks : List (Reception dataId)}
    (fits : Fits args ticks) (grown : args.bufLen ≤ more.bufLen) : Fits more ticks :=
  List.IsChain.imp (fun _ _ fit begun missing laterBegun =>
    (fit begun missing laterBegun).trans grown) fits

theorem Delivers.of_next {outcome earlier : ReassembledOutcome} {found : Found}
    (delivers : Delivers (next args earlier found) reception outcome) :
    Delivers args reception outcome :=
  ⟨delivers.ret, delivers.tick, delivers.dataId, delivers.restored⟩

/-- Successive calls return the buffers that are received whole, in order, and
the call after them waits for more. No copy leaves the vector, and the statistics
grow by the returned buffers and by those discarded before the last of them.
Behind an unfinished buffer no longer one than the vector is begun, and the
record of the smallest buffers has its place in the vector. -/
theorem reassembledCalls_deliver (args : ReassembledArgs) (prescaled : args.tickPrescale ≠ 0)
    (least : 16 ≤ args.bufLen) (dataId : UInt16) (ticks : List (Reception dataId))
    (changes : (ticks.map fun one => one.call.tick).IsChain (· ≠ ·))
    (noSentinel : ∀ one ∈ ticks, one.call.tick ≠ Complete.uintMax) (fits : Fits args ticks)
    (found : List Found) (many : found.length = (ticks.filter fun one => one.Whole).length) :
    ∃ outcomes final unread,
      successive found args ((stream ticks).map Sent.recv) = some (outcomes, final, unread) ∧
      List.Forall₂ (Delivers args) (ticks.filter fun one => one.Whole) outcomes ∧
      (∃ state, getReassembledBuffer final unread = .waiting state) ∧
      Inside found args ((stream ticks).map Sent.recv) ∧
      Adds args.stats final.stats (ticks.filter fun one => one.Whole)
        (discarded (settled ticks)) := by
  induction found generalizing args ticks with
  | nil =>
      have noneWhole : (ticks.filter fun one => one.Whole) = [] :=
        List.length_eq_zero_iff.mp many.symm
      have notWhole : ∀ one ∈ ticks, ¬ one.Whole := fun one member whole =>
        List.filter_eq_nil_iff.mp noneWhole one member (decide_eq_true whole)
      obtain ⟨inside, waits⟩ := feed_stream_waits least (between_start args dataId)
        (fun _ isSome => nomatch isSome) (changes_start changes noSentinel) fits notWhole
      rw [noneWhole, settled_of_notWhole notWhole]
      exact ⟨[], args, _, rfl, .nil, waits, inside, adds_nil _⟩
  | cons found others inductionHypothesis =>
      cases isWhole : ticks.filter fun one => one.Whole with
      | nil =>
          rw [isWhole] at many
          cases many
      | cons last later =>
          rw [isWhole] at many
          obtain ⟨earlier, rest, rfl, notWhole, lastWhole, laterWhole⟩ :=
            List.filter_eq_cons_iff.mp isWhole
          have whole : last.Whole := of_decide_eq_true lastWhole
          have split : earlier ++ last :: rest = (earlier ++ [last]) ++ rest := by simp
          rw [settled_append whole]
          rw [split] at changes noSentinel fits ⊢
          rw [List.map_append] at changes
          have builds := builds_last least (between_start args dataId)
            (fun _ isSome => nomatch isSome)
            (changes_start changes.left_of_append fun one member =>
              noSentinel one (List.mem_append_left _ member))
            (List.IsChain.left_of_append fits)
            (fun one member isWhole => notWhole one member (decide_eq_true isWhole)) whole
          obtain ⟨outcome, returns, delivers, adds, grown⟩ := builds.outcome whole prescaled
          have call := feed_append_of_left returns ((stream rest).map Sent.recv)
          have success : 0 ≤ outcome.ret := by
            have ret := delivers.ret
            omega
          obtain ⟨outcomes, final, unread, run, delivered, waits, inside, laterAdds⟩ :=
            inductionHypothesis (next args outcome found) prescaled (least.trans grown) rest
              changes.right_of_append
              (fun one member => noSentinel one (List.mem_append_right _ member))
              (Fits.mono fits.right_of_append grown)
              (by rw [laterWhole]; exact Nat.succ_injective many)
          rw [laterWhole] at delivered laterAdds
          refine ⟨outcome :: outcomes, final, unread, ?_, .cons delivers ?_, waits, ?_, ?_⟩
          · rw [stream_append, successive_cons call success, List.nil_append, run]
            rfl
          · exact delivered.imp fun _ _ delivers => delivers.of_next
          · rw [stream_append]
            refine ⟨(along_append_of_left returns _).mpr builds.inside, ?_⟩
            intro other unread same
            cases call.symm.trans same
            exact inside
          · rw [discarded_append whole]
            exact adds.append laterAdds

/-- A call that takes statistics, with a vector of 24 bytes. -/
def sampleCounting : ReassembledArgs :=
  { sampleCall with stats := some ⟨0, 0, 0, 0, 0, 0, 0, 0, 0⟩ }

/-- The first of the two packets. -/
def begunOnly : Reception 5 where
  call := sampleSend
  first := inOrder.first
  others := []
  same := by
    intro sent member
    rw [List.mem_singleton.mp member]
    rfl
  distinct := by decide
  source := rfl
  described := by decide

/-- Two packets of tick 9, the second one first. -/
def reversed : Reception 5 where
  call := { sampleSend with tick := 9 }
  first := .ofCall { sampleSend with tick := 9 } 1 (by decide) (by decide) (by decide)
  others := [.ofCall { sampleSend with tick := 9 } 0 (by decide) (by decide) (by decide)]
  same := by
    intro sent member
    simp only [List.mem_cons, List.not_mem_nil, or_false] at member
    rcases member with rfl | rfl <;> rfl
  distinct := by decide
  source := rfl
  described := by decide

/-- Two packets of tick 10 in order. -/
def complete : Reception 5 where
  call := { sampleSend with tick := 10 }
  first := .ofCall { sampleSend with tick := 10 } 0 (by decide) (by decide) (by decide)
  others := [.ofCall { sampleSend with tick := 10 } 1 (by decide) (by decide) (by decide)]
  same := by
    intro sent member
    simp only [List.mem_cons, List.not_mem_nil, or_false] at member
    rcases member with rfl | rfl <;> rfl
  distinct := by decide
  source := rfl
  described := by decide

/-- The buffer that is begun before one that is not is not counted as discarded. -/
theorem reassembledCalls_deliver_sample :
    ∃ outcomes final unread,
      successive [⟨fun _ => 0, fun _ => 0⟩] sampleCounting
        ((stream [begunOnly, reversed, complete]).map Sent.recv) =
          some (outcomes, final, unread) ∧
      List.Forall₂ (Delivers sampleCounting) [complete] outcomes ∧
      (∃ state, getReassembledBuffer final unread = .waiting state) ∧
      Inside [⟨fun _ => 0, fun _ => 0⟩] sampleCounting
        ((stream [begunOnly, reversed, complete]).map Sent.recv) ∧
      Adds sampleCounting.stats final.stats [complete] [reversed] :=
  reassembledCalls_deliver sampleCounting (by decide) (by decide) 5
    [begunOnly, reversed, complete] (by decide) (by decide) (by decide)
    [⟨fun _ => 0, fun _ => 0⟩] (by decide)

end Reassembled

end Dift.Assemble
