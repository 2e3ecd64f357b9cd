import Dift.Assemble.Accounting

/-!
Owns calls of `getCompletePacketizedBuffer` one after the other over one socket,
the way its documentation describes them: the tick that is returned plus the
prescale is the tick expected next, and the statistics are added to. Of the
buffers of one source that arrive one after the other, with packets missing and
out of order within each, the calls return exactly those that are complete and
begin with their first packet; and the buffers dropped that they count are all
the others that were sent before the last of these.
-/

namespace Dift.Assemble

open Dift.Foundation
open Dift.Wire

/-- The arguments of the call after one that has returned a buffer. -/
def CompleteArgs.next (args : CompleteArgs) (outcome : Outcome) : CompleteArgs :=
  { args with
    dataBuf := outcome.dataBuf
    tick := outcome.tick + args.tickPrescale.toUInt64
    stats := outcome.stats }

/-- So many calls that each return a buffer: what they return, the arguments of
the next call and what is left to read. -/
def successive : Nat → CompleteArgs → List Recv → Option (List Outcome × CompleteArgs × List Recv)
  | 0, args, socket => some ([], args, socket)
  | calls + 1, args, socket =>
      match getCompletePacketizedBuffer args socket with
      | .left (.returned outcome) rest =>
          if outcome.ret < 0 then none
          else (successive calls (args.next outcome) rest).map fun later =>
            (outcome :: later.1, later.2)
      | _ => none

theorem successive_succ {args : CompleteArgs} {socket rest : List Recv} {outcome : Outcome}
    (returns : getCompletePacketizedBuffer args socket = .left (.returned outcome) rest)
    (success : 0 ≤ outcome.ret) (calls : Nat) :
    successive (calls + 1) args socket =
      (successive calls (args.next outcome) rest).map fun later =>
        (outcome :: later.1, later.2) := by
  rw [successive, returns]
  exact if_neg (not_lt.mpr success)

namespace Complete

variable {args : CompleteArgs} {dataId : UInt16}

instance (arrivals : Arrivals dataId) : Decidable arrivals.Whole :=
  inferInstanceAs (Decidable (arrivals.first.offset = 0 ∧
    arrivals.packets.Perm (arrivals.transmission.packets arrivals.tick dataId)))

/-- A call delivers a buffer. -/
structure DeliversBuffer (args : CompleteArgs) (arrivals : Arrivals dataId) (outcome : Outcome) :
    Prop where
  ret : outcome.ret = arrivals.total
  tick : outcome.tick = arrivals.tick
  dataId : outcome.dataId = if args.wantsDataId then some dataId else none
  data : outcome.dataBuf.read 0 arrivals.total = arrivals.transmission.payload

/-- A call counts a buffer, and the buffers between it and the expected one. -/
def Counts (args : CompleteArgs) (arrivals : Arrivals dataId) (outcome : Outcome) : Prop :=
  ∀ before, args.stats = some before → ∃ after, outcome.stats = some after ∧
    after.acceptedBytes = before.acceptedBytes + arrivals.total ∧
    after.acceptedPackets = before.acceptedPackets + arrivals.packets.length ∧
    (args.tick ≠ 0xFFFFFFFFFFFFFFFF →
      after.droppedBuffers = before.droppedBuffers +
        (tickDistance arrivals.tick args.tick).tdiv args.tickPrescale.toNat)

/-! ### One call -/

/-- What a finished call returns, and what it adds to the statistics. -/
structure Finished (args : CompleteArgs) (state : State) (header : ReFields) (outcome : Outcome) :
    Prop where
  ret : outcome.ret = state.totalBytesRead
  tick : outcome.tick = header.tick
  dataId : outcome.dataId = if args.wantsDataId then some header.dataId else none
  dataBuf : outcome.dataBuf = state.dataBuf
  stats : ∀ before, args.stats = some before → ∃ after, outcome.stats = some after ∧
    after.acceptedBytes = before.acceptedBytes + state.totalBytesRead ∧
    after.acceptedPackets = before.acceptedPackets + state.pktCount.toNat ∧
    after.discardedBytes = before.discardedBytes + state.discardedBytes ∧
    after.discardedPackets = before.discardedPackets + state.discardedPackets ∧
    after.discardedBuffers = before.discardedBuffers + state.discardedBufs ∧
    (args.tick ≠ 0xFFFFFFFFFFFFFFFF →
      after.droppedBuffers = before.droppedBuffers +
        (tickDistance header.tick args.tick).tdiv args.tickPrescale.toNat)

theorem finish_finished {state : State} (header : ReFields) (whole : ¬ Divides args)
    (kept : state.stats = args.stats) :
    ∃ outcome, finish args state header = .returned outcome ∧
      Finished args state header outcome := by
  unfold finish
  cases given : args.stats with
  | none =>
      rw [kept, given]
      exact ⟨_, rfl, rfl, rfl, rfl, rfl, fun _ isSome => nomatch given.symm.trans isSome⟩
  | some before =>
      have present : args.stats.isSome = true := by rw [given]; rfl
      rw [kept, given]
      dsimp only
      by_cases expects : args.tick ≠ 0xFFFFFFFFFFFFFFFF
      · have prescaled : ¬ args.tickPrescale = 0 := fun zero => whole ⟨present, expects, zero⟩
        simp only [finishStats, if_pos expects, if_neg prescaled]
        refine ⟨_, rfl, rfl, rfl, rfl, rfl, ?_⟩
        intro other same
        cases given.symm.trans same
        exact ⟨_, rfl, rfl, rfl, rfl, rfl, rfl, fun _ => rfl⟩
      · simp only [finishStats, if_neg expects]
        refine ⟨_, rfl, rfl, rfl, rfl, rfl, ?_⟩
        intro other same
        cases given.symm.trans same
        exact ⟨_, rfl, rfl, rfl, rfl, rfl, rfl, fun known => absurd known expects⟩

/-- What a call that has built its last tick returns. -/
theorem endsBuilt_outcome {last : Arrivals dataId} {bufs bytes : Int} {fed : Fed State Exit Recv}
    (ends : EndsBuilt args last bufs bytes fed) (whole : ¬ Divides args) :
    ∃ outcome, fed = .left (.returned outcome) [] ∧ outcome.ret = last.total ∧
      outcome.tick = last.tick ∧ Counts args last outcome := by
  obtain ⟨final, packet, member, rfl, building⟩ := ends
  obtain ⟨outcome, returns, finished⟩ := finish_finished (fields packet) whole building.stats
  have sameTick : packet.tick = last.tick := Transmission.mem_tick (last.sent packet member)
  have count : final.pktCount.toNat = last.packets.length := by
    rw [building.packets, UInt32.toNat_ofNat_of_lt' last.length_lt]
  refine ⟨outcome, by rw [returns], finished.ret.trans building.read,
    finished.tick.trans sameTick, ?_⟩
  intro before given
  obtain ⟨after, stats, bytes, packets, -, -, -, dropped⟩ := finished.stats before given
  refine ⟨after, stats, ?_, ?_, ?_⟩
  · rw [bytes, building.read]
  · rw [packets, count]
  · rw [← sameTick]
    exact dropped

theorem mem_stream {ticks : List (Arrivals dataId)} {packet : Packet} :
    packet ∈ stream ticks ↔ ∃ arrivals ∈ ticks, packet ∈ arrivals.packets :=
  List.mem_flatMap

theorem stream_append (first second : List (Arrivals dataId)) :
    stream (first ++ second) = stream first ++ stream second :=
  List.flatMap_append

theorem stream_wellFormed {ticks : List (Arrivals dataId)} {packet : Packet}
    (member : packet ∈ stream ticks) : packet.WellFormed := by
  obtain ⟨arrivals, -, received⟩ := mem_stream.mp member
  exact Transmission.mem_wellFormed (arrivals.sent packet received)

/-- The packets of one tick in a stream are those of its arrivals. -/
theorem filter_stream {earlier : List (Arrivals dataId)} {last : Arrivals dataId}
    (distinct : ((earlier ++ [last]).map Arrivals.tick).Nodup) :
    (stream (earlier ++ [last])).filter (fun packet => packet.tick = last.tick) =
      last.packets := by
  have own : last.packets.filter (fun packet => packet.tick = last.tick) = last.packets := by
    rw [List.filter_eq_self]
    intro packet member
    exact decide_eq_true (Transmission.mem_tick (last.sent packet member))
  have others : (stream earlier).filter (fun packet => packet.tick = last.tick) = [] := by
    rw [List.filter_eq_nil_iff]
    intro packet member same
    obtain ⟨arrivals, isEarlier, received⟩ := mem_stream.mp member
    have sameTick : arrivals.tick = last.tick :=
      (Transmission.mem_tick (arrivals.sent packet received)).symm.trans (of_decide_eq_true same)
    rw [List.map_append, List.nodup_append] at distinct
    exact distinct.2.2 _ (List.mem_map_of_mem isEarlier) _ (by simp) sameTick
  rw [stream_append, List.filter_append, others, List.nil_append]
  simpa [stream] using own

/-- A call that returns the length and tick of the last buffer of a stream has
restored its payload. -/
theorem data_of_returned {earlier : List (Arrivals dataId)} {last : Arrivals dataId}
    (distinct : ((earlier ++ [last]).map Arrivals.tick).Nodup) {outcome : Outcome}
    (returns : getCompletePacketizedBuffer args ((stream (earlier ++ [last])).map Packet.recv) =
      .left (.returned outcome) [])
    (ret : outcome.ret = last.total) (tick : outcome.tick = last.tick) :
    DeliversBuffer args last outcome := by
  have success : 0 ≤ outcome.ret := by omega
  obtain ⟨builtTick, source, given, got, unread, run, -, -, delivers⟩ :=
    completed_of_returned (fun _ => stream_wellFormed) returns success
  obtain ⟨seen, split, ⟨chosen, sublist, rfl, same⟩, packet, packetSeen, -, packetSource, -⟩ :=
    Session.feed_sound run
  have sameTick : builtTick = last.tick := delivers.tick.symm.trans tick
  have sameSource : source = dataId := by
    have inStream : packet ∈ stream (earlier ++ [last]) := by
      rw [split]
      exact List.mem_append_left _ packetSeen
    obtain ⟨arrivals, -, received⟩ := mem_stream.mp inStream
    exact packetSource.symm.trans (Transmission.mem_dataId (arrivals.sent packet received))
  -- What was built is a sublist of the packets of the last tick.
  have chosenOwn : chosen.Sublist last.packets := by
    have kept : chosen.filter (fun packet => packet.tick = last.tick) = chosen := by
      rw [List.filter_eq_self]
      intro one member
      exact decide_eq_true ((same one member).1.trans sameTick)
    have inStream : chosen.Sublist (stream (earlier ++ [last])) := by
      rw [split]
      exact sublist.trans (List.sublist_append_left _ _)
    have filtered := inStream.filter (fun packet => packet.tick = last.tick)
    rwa [kept, filter_stream distinct] at filtered
  have weighs : weight (chosen.map Packet.piece) = last.total := by
    have read := delivers.ret.symm.trans ret
    omega
  have all : (chosen.map Packet.piece).Perm (layout 0 last.transmission.chunks) := by
    apply perm_of_weight_le
    · exact Transmission.nodup_map_piece (last.nodup.sublist chosenOwn)
        fun one member => last.sent one (chosenOwn.subset member)
    · intro piece member
      obtain ⟨one, inChosen, rfl⟩ := List.mem_map.mp member
      exact Transmission.piece_mem (last.sent one (chosenOwn.subset inChosen))
    · intro piece member
      exact last.transmission.nonempty _ (mem_layout_block member)
    · rw [weight_layout]
      exact weighs.ge
  refine ⟨ret, tick, ?_, ?_⟩
  · rw [delivers.dataId, sameSource]
  · rw [delivers.buffer, paste_append]
    exact Transmission.read_paste_packets _ all

/-- Distinct ticks change at every buffer, also from the initial one. -/
theorem changes_of_distinct {ticks : List (Arrivals dataId)}
    (distinct : (ticks.map Arrivals.tick).Nodup)
    (noSentinel : ∀ arrivals ∈ ticks, arrivals.tick ≠ uintMax) :
    (uintMax :: ticks.map Arrivals.tick).IsChain (· ≠ ·) := by
  have absent : uintMax ∉ ticks.map Arrivals.tick := by
    intro member
    obtain ⟨arrivals, inTicks, same⟩ := List.mem_map.mp member
    exact noSentinel arrivals inTicks same
  exact (List.nodup_cons.mpr ⟨absent, distinct⟩).isChain

/-- A call over some buffers that are not whole and one that is. -/
theorem call_returns (whole : ¬ Divides args) {earlier : List (Arrivals dataId)}
    {last : Arrivals dataId} (distinct : ((earlier ++ [last]).map Arrivals.tick).Nodup)
    (noSentinel : ∀ arrivals ∈ earlier ++ [last], arrivals.tick ≠ uintMax)
    (fits : Fits args (earlier ++ [last])) (notWhole : ∀ arrivals ∈ earlier, ¬ arrivals.Whole)
    (lastWhole : last.Whole) (rest : List Recv) :
    ∃ outcome, getCompletePacketizedBuffer args
        ((stream (earlier ++ [last])).map Packet.recv ++ rest) = .left (.returned outcome) rest ∧
      DeliversBuffer args last outcome ∧ Counts args last outcome := by
  have ends := (feed_stream (between_start args dataId) (changes_of_distinct distinct noSentinel)
    notWhole lastWhole).1 fits
  obtain ⟨outcome, run, ret, tick, counts⟩ := endsBuilt_outcome ends whole
  have delivers := data_of_returned distinct run ret tick
  exact ⟨outcome, feed_append_of_left run rest, delivers, counts⟩

/-- A call over buffers none of which is whole waits for more. -/
theorem call_waits {ticks : List (Arrivals dataId)} {tick : UInt64} {pending : Option Nat}
    {bufs bytes : Int} {state : State}
    (between : Between args dataId tick pending bufs bytes state)
    (changes : (tick :: ticks.map Arrivals.tick).IsChain (· ≠ ·)) (fits : Fits args ticks)
    (notWhole : ∀ arrivals ∈ ticks, ¬ arrivals.Whole) :
    ∃ final, feed (round args) state ((stream ticks).map Packet.recv) = .waiting final := by
  induction ticks generalizing tick pending bufs bytes state with
  | nil => exact ⟨state, rfl⟩
  | cons arrivals rest inductionHypothesis =>
      obtain ⟨differs, laterChanges⟩ := List.isChain_cons_cons.mp changes
      have laterFits : Fits args rest := fun other member =>
        fits other (List.mem_cons_of_mem _ member)
      have laterNotWhole : ∀ other ∈ rest, ¬ other.Whole := fun other member =>
        notWhole other (List.mem_cons_of_mem _ member)
      have split : (stream (arrivals :: rest)).map Packet.recv =
          arrivals.packets.map Packet.recv ++ (stream rest).map Packet.recv := by
        simp [stream]
      rw [split]
      by_cases begun : arrivals.Begun
      · have missing : ¬ arrivals.AllReceived := fun all =>
          notWhole arrivals (by simp) ⟨begun, all⟩
        obtain ⟨after, run, next⟩ :=
          (feed_taken_partly (takes_begun between differs.symm begun) missing).1
            (fits arrivals (by simp) begun)
        rw [feed_append_of_waiting run]
        exact inductionHypothesis next laterChanges laterFits laterNotWhole
      · obtain ⟨after, run, next⟩ := feed_notBegun between differs.symm begun
        rw [feed_append_of_waiting run]
        exact inductionHypothesis next laterChanges laterFits laterNotWhole

/-! ### All calls -/

/-- Calls that deliver and count some buffers one after the other. -/
inductive Receives {dataId : UInt16} :
    CompleteArgs → List (Arrivals dataId) → List Outcome → CompleteArgs → Prop where
  | done {current} : Receives current [] [] current
  | call {current arrivals rest outcome outcomes final}
      (delivers : DeliversBuffer current arrivals outcome)
      (counts : Counts current arrivals outcome)
      (later : Receives (current.next outcome) rest outcomes final) :
      Receives current (arrivals :: rest) (outcome :: outcomes) final

/-- Calls over one socket receive the buffers that are whole, and the one after
them waits. -/
theorem successive_receives (args : CompleteArgs) {whole : List (Arrivals dataId)}
    (prescaled : args.tickPrescale ≠ 0) {ticks : List (Arrivals dataId)}
    (isWhole : ticks.filter (fun one => one.Whole) = whole)
    (distinct : (ticks.map Arrivals.tick).Nodup)
    (noSentinel : ∀ arrivals ∈ ticks, arrivals.tick ≠ uintMax) (fits : Fits args ticks) :
    ∃ outcomes final unread,
      successive whole.length args ((stream ticks).map Packet.recv) =
        some (outcomes, final, unread) ∧
      Receives args whole outcomes final ∧
      ∃ state, getCompletePacketizedBuffer final unread = .waiting state := by
  induction whole generalizing args ticks with
  | nil =>
      have notWhole : ∀ arrivals ∈ ticks, ¬ arrivals.Whole := by
        intro arrivals member whole
        exact List.filter_eq_nil_iff.mp isWhole arrivals member (decide_eq_true whole)
      exact ⟨[], args, _, rfl, .done, call_waits (between_start args dataId)
        (changes_of_distinct distinct noSentinel) fits notWhole⟩
  | cons last later inductionHypothesis =>
      obtain ⟨earlier, rest, rfl, notWhole, lastWhole, laterWhole⟩ :=
        List.filter_eq_cons_iff.mp isWhole
      have split : earlier ++ last :: rest = (earlier ++ [last]) ++ rest := by simp
      rw [split] at distinct noSentinel fits ⊢
      rw [List.map_append, List.nodup_append] at distinct
      have noDivision : ¬ Divides args := fun divides => prescaled divides.2.2
      obtain ⟨outcome, returns, delivers, counts⟩ := call_returns noDivision distinct.1
        (fun arrivals member => noSentinel arrivals (List.mem_append_left _ member))
        (fun arrivals member => fits arrivals (List.mem_append_left _ member))
        (fun arrivals member whole => notWhole arrivals member (decide_eq_true whole))
        (of_decide_eq_true lastWhole) ((stream rest).map Packet.recv)
      obtain ⟨outcomes, final, unread, run, receives, waits⟩ :=
        inductionHypothesis (args.next outcome) prescaled laterWhole distinct.2.1
          (fun arrivals member => noSentinel arrivals (List.mem_append_right _ member))
          (fun arrivals member => fits arrivals (List.mem_append_right _ member))
      have success : 0 ≤ outcome.ret := by
        have ret := delivers.ret
        omega
      refine ⟨outcome :: outcomes, final, unread, ?_, .call delivers counts receives, waits⟩
      rw [stream_append, List.map_append, List.length_cons, successive_succ returns success, run]
      rfl

theorem Receives.delivers {whole : List (Arrivals dataId)} {outcomes : List Outcome}
    {final : CompleteArgs} (receives : Receives args whole outcomes final) :
    List.Forall₂ (DeliversBuffer args) whole outcomes := by
  induction receives with
  | done => exact .nil
  | call delivers _ _ inductionHypothesis =>
      apply List.Forall₂.cons delivers
      apply inductionHypothesis.imp
      intro _ _ later
      exact ⟨later.ret, later.tick, later.dataId, later.data⟩

/-- Calls that expect tick 1. -/
def sampleCalls : CompleteArgs :=
  { countingArgs with tick := 1 }

/-- Of the ticks 1 to 5 the second and the last are whole, and nothing of the
fourth arrives. -/
def sampleTicks : List (Arrivals 5) :=
  [begunTick 1, wholeTick 2, lostTick 3, wholeTick 5]

theorem sampleTicks_noSentinel : ∀ arrivals ∈ sampleTicks, arrivals.tick ≠ uintMax := by
  decide

theorem sampleTicks_fits : Fits sampleCalls sampleTicks := by
  unfold Fits Session.Roomy
  decide +kernel

example : sampleTicks.map (fun one => decide one.Whole) = [false, true, false, true] := by
  decide +kernel

/-! ### What is counted as dropped -/

/-- The buffers were sent under the expected tick and the ticks that follow it
in steps of the prescale, those that arrive in the order of sending. -/
structure InStep (args : CompleteArgs) (ticks : List (Arrivals dataId)) : Prop where
  rising : ticks.Pairwise fun before after => before.tick.toNat < after.tick.toNat
  steps : ∀ arrivals ∈ ticks, ∃ number : Nat,
    arrivals.tick.toNat = args.tick.toNat + number * args.tickPrescale.toNat
  bounded : ∀ arrivals ∈ ticks, arrivals.tick.toNat + args.tickPrescale.toNat < 2 ^ 63

/-- The distance of a tick that lies ahead. -/
theorem tickDistance_ahead {packetTick expectedTick : UInt64} {distance : Nat}
    (ahead : packetTick.toNat = expectedTick.toNat + distance) (near : distance < 2 ^ 63) :
    tickDistance packetTick expectedTick = distance := by
  have difference : (packetTick - expectedTick).toNat = distance := by
    have below := packetTick.toNat_lt
    rw [UInt64.toNat_sub_of_le _ _ (UInt64.le_iff_toNat_le.mpr (by omega)), ahead]
    omega
  have same : ((distance : Nat) : Int).bmod (2 ^ 64) = distance := by
    apply Int.bmod_eq_of_le_mul_two
    · norm_num
      omega
    · norm_num
      omega
  have nonneg : ¬ ((distance : Nat) : Int) < 0 := by omega
  unfold tickDistance
  simp only [difference, same, if_neg nonneg]

/-- The tick expected after one that was delivered. -/
theorem next_tick {args : CompleteArgs} {arrivals : Arrivals dataId} {outcome : Outcome}
    (delivers : DeliversBuffer args arrivals outcome)
    (bounded : arrivals.tick.toNat + args.tickPrescale.toNat < 2 ^ 63) :
    (args.next outcome).tick.toNat = arrivals.tick.toNat + args.tickPrescale.toNat := by
  rw [CompleteArgs.next, delivers.tick, UInt64.toNat_add, UInt32.toNat_toUInt64]
  exact Nat.mod_eq_of_lt (by omega)

/-- Behind a buffer that is delivered, the next ones are in step again. -/
theorem InStep.next {args : CompleteArgs} {arrivals : Arrivals dataId}
    {rest : List (Arrivals dataId)} {outcome : Outcome} (inStep : InStep args (arrivals :: rest))
    (delivers : DeliversBuffer args arrivals outcome) : InStep (args.next outcome) rest where
  rising := (List.pairwise_cons.mp inStep.rising).2
  steps := by
    intro other member
    obtain ⟨here, place⟩ := inStep.steps arrivals (by simp)
    obtain ⟨there, otherPlace⟩ := inStep.steps other (by simp [member])
    have later := (List.pairwise_cons.mp inStep.rising).1 other member
    have expected := next_tick delivers (inStep.bounded arrivals (by simp))
    have further : here < there := by
      by_contra notFurther
      have := Nat.mul_le_mul_right args.tickPrescale.toNat (not_lt.mp notFurther)
      omega
    obtain ⟨between, rfl⟩ : ∃ between, there = here + 1 + between :=
      ⟨there - (here + 1), by omega⟩
    refine ⟨between, ?_⟩
    have same : (args.next outcome).tickPrescale = args.tickPrescale := rfl
    rw [expected, same, otherPlace, place, Nat.add_mul, Nat.add_mul, Nat.one_mul]
    omega
  bounded := fun other member => inStep.bounded other (by simp [member])

/-- The expected tick moves on by the prescale for every buffer that is received
or counted as dropped. -/
theorem Receives.counts {whole : List (Arrivals dataId)} {outcomes : List Outcome}
    {final : CompleteArgs} (receives : Receives args whole outcomes final)
    (prescaled : args.tickPrescale ≠ 0) (inStep : InStep args whole)
    {before : PacketRecvStats} (given : args.stats = some before) :
    ∃ after, final.stats = some after ∧
      after.acceptedBytes = before.acceptedBytes + (whole.map Arrivals.total).sum ∧
      after.acceptedPackets =
        before.acceptedPackets + (whole.map fun one => one.packets.length).sum ∧
      (final.tick.toNat : Int) = args.tick.toNat +
        args.tickPrescale.toNat * (whole.length + (after.droppedBuffers - before.droppedBuffers)) := by
  induction receives generalizing before with
  | done => exact ⟨before, given, by simp, by simp, by simp⟩
  | @call current arrivals rest outcome outcomes final delivers counts later inductionHypothesis =>
      obtain ⟨middle, stats, bytes, packets, dropped⟩ := counts before given
      obtain ⟨after, finalStats, laterBytes, laterPackets, tick⟩ :=
        inductionHypothesis prescaled (inStep.next delivers) stats
      obtain ⟨number, place⟩ := inStep.steps arrivals (by simp)
      have bounded := inStep.bounded arrivals (by simp)
      have positive : 0 < current.tickPrescale.toNat :=
        Nat.pos_of_ne_zero fun zero => prescaled (UInt32.toNat_inj.mp zero)
      have known : current.tick ≠ 0xFFFFFFFFFFFFFFFF := by
        intro same
        rw [same] at place
        have large : (0xFFFFFFFFFFFFFFFF : UInt64).toNat = 2 ^ 64 - 1 := rfl
        omega
      have counted : middle.droppedBuffers = before.droppedBuffers + number := by
        rw [dropped known, tickDistance_ahead place (by omega)]
        norm_cast
        rw [Nat.cast_mul, Int.mul_tdiv_cancel]
        omega
      have expected := next_tick delivers bounded
      have same : (current.next outcome).tickPrescale = current.tickPrescale := rfl
      refine ⟨after, finalStats, ?_, ?_, ?_⟩
      · rw [laterBytes, bytes, List.map_cons, List.sum_cons, Nat.cast_add, Int.add_assoc]
      · rw [laterPackets, packets, List.map_cons, List.sum_cons, Nat.cast_add, Int.add_assoc]
      · rw [tick, expected, place, same, counted, List.length_cons]
        push_cast
        ring

theorem sampleTicks_inStep : InStep sampleCalls sampleTicks where
  rising := by decide
  steps := by
    have places : ∀ arrivals ∈ sampleTicks, arrivals.tick.toNat =
        sampleCalls.tick.toNat + (arrivals.tick.toNat - 1) * sampleCalls.tickPrescale.toNat := by
      decide
    exact fun arrivals member => ⟨_, places arrivals member⟩
  bounded := by decide

end Complete

end Dift.Assemble
