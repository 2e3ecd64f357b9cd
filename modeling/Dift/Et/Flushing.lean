import Dift.Et.Conservation

/-!
Owns what the house cleaning of `getBuffers` adds to the statistics. For every
tick that is flushed, each declared source is charged with the length and the
packet count of the event that the current packet went to, and not with those
of its own event in the flushed entry. So the statistics are right exactly when
nothing is flushed, or the sums happen to agree.
-/

namespace Dift.Et

open Dift.Foundation
open Dift.Wire
open Dift.Assemble

namespace GetBuffers

variable (setting : Setting)

/-! ### What should be counted -/

/-- The ticks, with their entries, that the house cleaning flushes. -/
def flushed (state : State) : List (UInt64 × Nat) :=
  state.buffers.filter fun pair => isOld setting state.biggestTick pair.1

/-- The bytes of one source in the flushed entries. -/
def flushedBytes (state : State) (index : Nat) : Int :=
  ((flushed setting state).map fun pair =>
    ((state.fifo.events (state.fifo.bufs pair.2 index)).length.toNat : Int)).sum

/-- The packets of one source in the flushed entries. -/
def flushedPackets (state : State) (index : Nat) : Int :=
  ((flushed setting state).map fun pair =>
    ((state.fifo.events (state.fifo.bufs pair.2 index)).control 5).toInt).sum

/-- The house cleaning charges each declared source with the bytes and packets
of its events in the flushed entries and with one buffer for each of them, and
changes nothing else in the statistics. -/
def CountsFlushed (state : State) (event : EventId) : Prop :=
  ∀ before, state.stats = some before →
    ∃ after, (clean setting state event).stats = some after ∧
      (∀ index id, setting.opened.bufIds[index]? = some id →
        after id = { before id with
          discardedBytes := (before id).discardedBytes + flushedBytes setting state index
          discardedBuffers := (before id).discardedBuffers + (flushed setting state).length
          discardedPackets := (before id).discardedPackets +
            flushedPackets setting state index }) ∧
      ∀ id, id ∉ setting.opened.bufIds → after id = before id

/-- There are no statistics or nothing is flushed, or the declared sources are
different and each has in the flushed entries as many bytes and packets as the
current event would have if it stood in all of them. -/
def EvenlyFlushed (state : State) (event : EventId) : Prop :=
  state.stats = none ∨ flushed setting state = [] ∨
    setting.opened.bufIds.Nodup ∧ ∀ index < setting.opened.idCount,
      flushedBytes setting state index =
          (flushed setting state).length * (state.fifo.events event).length.toNat ∧
        flushedPackets setting state index =
          (flushed setting state).length * ((state.fifo.events event).control 5).toInt

/-! ### What is counted -/

/-- The charge of some flushed buffers that hold what an event holds. -/
def discard (times : Int) (event : Event) (old : PacketRecvStats) : PacketRecvStats :=
  { old with
    discardedBytes := old.discardedBytes + times * event.length.toNat
    discardedBuffers := old.discardedBuffers + times
    discardedPackets := old.discardedPackets + times * (event.control 5).toInt }

theorem discard_zero (event : Event) (old : PacketRecvStats) : discard 0 event old = old := by
  simp [discard]

theorem discard_discard (first second : Int) (event : Event) (old : PacketRecvStats) :
    discard first event (discard second event old) = discard (first + second) event old := by
  simp only [discard, PacketRecvStats.mk.injEq, true_and, and_true]
  refine ⟨?_, ?_, ?_⟩ <;> ring

variable {setting}

/-- One flushed entry charges an identifier as often as it was declared. -/
theorem addDiscarded_apply (state : State) (event : EventId) (stats : Int → PacketRecvStats)
    (id : Int) :
    addDiscarded setting state event stats id =
      discard (setting.opened.bufIds.count id) (state.fifo.events event) (stats id) := by
  unfold addDiscarded
  generalize setting.opened.bufIds = ids
  induction ids generalizing stats with
  | nil => exact (discard_zero _ _).symm
  | cons first rest inductionHypothesis =>
      rw [List.foldl_cons, inductionHypothesis]
      by_cases same : first = id
      · subst same
        rw [Function.update_self, List.count_cons_self, Nat.cast_succ, ← discard_discard]
        simp [discard]
      · rw [Function.update_of_ne (Ne.symm same), List.count_cons_of_ne same]

theorem addDiscarded_iterate (state : State) (event : EventId) (times : Nat)
    (stats : Int → PacketRecvStats) (id : Int) :
    (addDiscarded setting state event)^[times] stats id =
      discard (times * setting.opened.bufIds.count id) (state.fifo.events event) (stats id) := by
  induction times generalizing stats with
  | zero => simp [discard_zero]
  | succ times inductionHypothesis =>
      rw [Function.iterate_succ_apply, inductionHypothesis, addDiscarded_apply, discard_discard,
        Nat.cast_succ, Int.add_mul, Int.one_mul]

/-- The house cleaning charges the current event once for each flushed tick. -/
theorem foldl_cleanOne_stats (event : EventId) (pairs : List (UInt64 × Nat)) (state : State) :
    (pairs.foldl (cleanOne setting event) state).stats =
      state.stats.map (addDiscarded setting state event)^[(pairs.filter fun pair =>
        isOld setting state.biggestTick pair.1).length] := by
  induction pairs generalizing state with
  | nil => simp
  | cons pair rest inductionHypothesis =>
      rw [List.foldl_cons, inductionHypothesis]
      unfold cleanOne
      cases old : isOld setting state.biggestTick pair.1 with
      | true =>
          rw [if_pos rfl, List.filter_cons_of_pos (by simpa using old), List.length_cons,
            Function.iterate_succ]
          cases state.stats <;> rfl
      | false =>
          rw [if_neg Bool.false_ne_true, List.filter_cons_of_neg (by simpa using old)]

variable (setting) in
theorem clean_stats (state : State) (event : EventId) :
    (clean setting state event).stats =
      state.stats.map (addDiscarded setting state event)^[(flushed setting state).length] := by
  rw [clean, foldl_cleanOne_stats,
    ((setting.orderPerm state.buffers).filter _).length_eq, flushed]

/-! ### When the two agree -/

theorem discard_eq_iff {times : Int} {event : Event} {old : PacketRecvStats}
    {bytes buffers packets : Int} :
    discard times event old = { old with
      discardedBytes := old.discardedBytes + bytes
      discardedBuffers := old.discardedBuffers + buffers
      discardedPackets := old.discardedPackets + packets } ↔
    times * event.length.toNat = bytes ∧ times = buffers ∧
      times * (event.control 5).toInt = packets := by
  simp only [discard, PacketRecvStats.mk.injEq, true_and, and_true, add_right_inj]
  constructor
  · intro counted
    obtain ⟨isPackets, isBytes, isBuffers⟩ := counted
    exact ⟨isBytes, isBuffers, isPackets⟩
  · intro counted
    obtain ⟨isBytes, isBuffers, isPackets⟩ := counted
    exact ⟨isPackets, isBytes, isBuffers⟩

/-- The statistics are right exactly when for each declared source, counted as
often as it was declared, the current event stands for its own events. -/
theorem countsFlushed_iff_of_stats {state : State} {before : Int → PacketRecvStats}
    (stats : state.stats = some before) (event : EventId) :
    CountsFlushed setting state event ↔
      ∀ index id, setting.opened.bufIds[index]? = some id →
        ((flushed setting state).length * setting.opened.bufIds.count id : Int) *
            (state.fifo.events event).length.toNat = flushedBytes setting state index ∧
          ((flushed setting state).length * setting.opened.bufIds.count id : Int) =
            (flushed setting state).length ∧
          ((flushed setting state).length * setting.opened.bufIds.count id : Int) *
            ((state.fifo.events event).control 5).toInt = flushedPackets setting state index := by
  have cleaned := clean_stats setting state event
  rw [stats, Option.map_some] at cleaned
  constructor
  · intro counts index id declared
    rcases counts before stats with ⟨after, isAfter, charged, -⟩
    rw [cleaned] at isAfter
    cases isAfter
    have here := charged index id declared
    rw [addDiscarded_iterate] at here
    exact discard_eq_iff.mp here
  · intro even old isOld
    rcases Option.some.inj (stats.symm.trans isOld) with rfl
    refine ⟨_, cleaned, fun index id declared => ?_, fun id foreign => ?_⟩
    · rw [addDiscarded_iterate]
      exact discard_eq_iff.mpr (even index id declared)
    · rw [addDiscarded_iterate, List.count_eq_zero.mpr foreign]
      simp [discard_zero]

/-- The house cleaning counts what it flushes exactly when it flushes evenly. -/
theorem countsFlushed_iff_evenlyFlushed (state : State) (event : EventId) :
    CountsFlushed setting state event ↔ EvenlyFlushed setting state event := by
  cases stats : state.stats with
  | none =>
      refine iff_of_true (fun before isBefore => ?_) (.inl stats)
      rw [stats] at isBefore
      cases isBefore
  | some before =>
      rw [countsFlushed_iff_of_stats stats, EvenlyFlushed]
      by_cases nothing : flushed setting state = []
      · refine iff_of_true (fun index id _ => ?_) (.inr (.inl nothing))
        simp [nothing, flushedBytes, flushedPackets]
      · have notZero : ((flushed setting state).length : Int) ≠ 0 := by
          simpa using nothing
        constructor
        · intro even
          have once (index : Nat) (id : Int)
              (declared : setting.opened.bufIds[index]? = .some id) :
              ((setting.opened.bufIds.count id : Nat) : Int) = 1 :=
            mul_left_cancel₀ notZero ((even index id declared).2.1.trans (mul_one _).symm)
          refine .inr (.inr ⟨List.nodup_iff_count_eq_one.mpr fun id member => ?_,
            fun index inside => ?_⟩)
          · rcases List.mem_iff_getElem?.mp member with ⟨index, declared⟩
            exact_mod_cast once index id declared
          · have declared := List.getElem?_eq_getElem inside
            rcases even index _ declared with ⟨isBytes, -, isPackets⟩
            rw [once index _ declared, mul_one] at isBytes isPackets
            exact ⟨isBytes.symm, isPackets.symm⟩
        · intro even index id declared
          rcases (even.resolve_left (by simp [stats])).resolve_left nothing with ⟨nodup, sums⟩
          rcases List.getElem?_eq_some_iff.mp declared with ⟨inside, isId⟩
          rcases sums index inside with ⟨isBytes, isPackets⟩
          have once := List.count_eq_one_of_mem nodup (List.mem_of_getElem? declared)
          rw [once, Nat.cast_one, mul_one]
          exact ⟨isBytes.symm, rfl, isPackets.symm⟩

/-! ### Runs -/

variable (setting)

/-- The state and the event with which the rest of a round comes to the house
cleaning, if it does. -/
def storeFlush (state : State) (index : Nat) (header : ReFields) (bytesRead : Nat) :
    Option (State × EventId) :=
  if header.length.toNat > setting.opened.bufSize.toNat then none
  else
    match writePacket setting state index header bytesRead with
    | none => none
    | some (written, totalBytesWritten, event) =>
        some (if totalBytesWritten.toNat ≥ header.length.toNat then
          finishEvent setting written header.tick event else written, event)

/-- The same for a packet of a declared source. -/
def acceptFlush (state : State) (index : Nat) (header : ReFields) (bytesRead : Nat) :
    Option (State × EventId) :=
  match selectEntry setting state header.tick with
  | .error _ => none
  | .ok selected =>
      storeFlush setting { selected with prevTick := header.tick } index header bytesRead

/-- The state and the event with which a round comes to the house cleaning, if
it does. -/
def roundFlush (state : State) : Recv → Option (State × EventId)
  | .failed => none
  | .datagram bytes =>
      let state := { state with
        packetBuffer := state.packetBuffer.write 0 (bytes.take packetBufSize) }
      let header := parseReHeader setting.host state.packetBuffer 0
      match bufIdReverseMap setting.opened.bufIds header.dataId.toNat with
      | none => none
      | some index =>
          acceptFlush setting state index header (bytes.take packetBufSize).length

/-- The round counts what it flushes. -/
def RoundCounts (state : State) (recv : Recv) : Prop :=
  ∀ stored event, roundFlush setting state recv = some (stored, event) →
    CountsFlushed setting stored event

/-- The round flushes evenly. -/
def RoundEven (state : State) (recv : Recv) : Prop :=
  ∀ stored event, roundFlush setting state recv = some (stored, event) →
    EvenlyFlushed setting stored event

variable {setting}

/-- A round that comes to the house cleaning ends with it. -/
theorem store_of_storeFlush {state stored : State} {index : Nat} {header : ReFields}
    {bytesRead : Nat} {event : EventId}
    (flush : storeFlush setting state index header bytesRead = some (stored, event)) :
    store setting state index header bytesRead = .again (clean setting stored event) := by
  unfold storeFlush at flush
  unfold store
  split at flush
  case isTrue => cases flush
  case isFalse small =>
    rw [if_neg small]
    cases writes : writePacket setting state index header bytesRead with
    | none =>
        rw [writes] at flush
        cases flush
    | some result =>
        rcases result with ⟨written, total, current⟩
        rw [writes] at flush
        rcases Prod.mk.inj (Option.some.inj flush) with ⟨rfl, rfl⟩
        rfl

theorem accept_of_acceptFlush {state stored : State} {index : Nat} {header : ReFields}
    {bytesRead : Nat} {event : EventId}
    (flush : acceptFlush setting state index header bytesRead = some (stored, event)) :
    accept setting state index header bytesRead = .again (clean setting stored event) := by
  unfold acceptFlush at flush
  unfold accept
  cases selects : selectEntry setting state header.tick with
  | error reason =>
      rw [selects] at flush
      cases flush
  | ok selected =>
      rw [selects] at flush
      exact store_of_storeFlush flush

theorem round_of_roundFlush {state stored : State} {recv : Recv} {event : EventId}
    (flush : roundFlush setting state recv = some (stored, event)) :
    round setting state recv = .again (clean setting stored event) := by
  cases recv with
  | failed => cases flush
  | datagram bytes =>
      unfold roundFlush at flush
      unfold round
      dsimp only at flush ⊢
      cases declared : bufIdReverseMap setting.opened.bufIds
          (parseReHeader setting.host
            (state.packetBuffer.write 0 (bytes.take packetBufSize)) 0).dataId.toNat with
      | none =>
          rw [declared] at flush
          cases flush
      | some index =>
          rw [declared] at flush
          exact accept_of_acceptFlush flush

end GetBuffers

/-- In a run the house cleaning counts what it flushes exactly when it always
flushes evenly. -/
theorem getBuffers_counts_iff (setting : Setting) (begun : State) (socket : List Recv) :
    Along (GetBuffers.round setting) (GetBuffers.RoundCounts setting) begun socket ↔
      Along (GetBuffers.round setting) (GetBuffers.RoundEven setting) begun socket := by
  apply along_congr
  intro state recv
  exact forall₃_congr fun stored event _ =>
    GetBuffers.countsFlushed_iff_evenlyFlushed stored event

/-- The sample setting with statistics. -/
def countingSetting : Setting :=
  { sampleSetting with takenStats := some fun _ => ⟨0, 0, 0, 0, 0, 0, 0, 0, 0⟩ }

def countingBegun : State :=
  { sampleBegun with stats := countingSetting.takenStats }

/-- The first byte of two. -/
def firstPacket : Packet :=
  { samplePacket 5 with length := 2 }

/-- The first two bytes of three, of a tick that makes the other one old. -/
def laterPacket : Packet :=
  { samplePacket 10 with length := 3, payload := [1, 2] }

/-- The flushed tick has one byte, and two are charged. -/
theorem not_counts_laterPacket :
    GetBuffers.start countingSetting (fun _ => 0) = .ok countingBegun ∧
      ¬ Along (GetBuffers.round countingSetting) (GetBuffers.RoundCounts countingSetting)
        countingBegun [firstPacket.recv, laterPacket.recv] := by
  refine ⟨rfl, fun counts => ?_⟩
  have numbers : (match GetBuffers.round countingSetting countingBegun firstPacket.recv with
      | .leave _ => none
      | .again next =>
          (GetBuffers.roundFlush countingSetting next laterPacket.recv).map fun flush =>
            (flush.1.stats.isSome, (GetBuffers.flushed countingSetting flush.1).length,
              GetBuffers.flushedBytes countingSetting flush.1 0,
              (flush.1.fifo.events flush.2).length.toNat)) = some (true, 1, 1, 2) := by
    decide +kernel
  cases step : GetBuffers.round countingSetting countingBegun firstPacket.recv with
  | leave stopped =>
      rw [step] at numbers
      cases numbers
  | again next =>
      rw [step] at numbers
      rcases Option.map_eq_some_iff.mp numbers with ⟨⟨stored, event⟩, flush, values⟩
      simp only [Prod.mk.injEq] at values
      rcases values with ⟨hasStats, one, bytes, current⟩
      have second := ((along_cons_of_again step _).mp counts).2.1 stored event flush
      rcases (GetBuffers.countsFlushed_iff_evenlyFlushed stored event).mp second with
        without | nothing | ⟨-, sums⟩
      · simp [without] at hasStats
      · simp [nothing] at one
      · have charged := (sums 0 Nat.zero_lt_one).1
        rw [bytes, one, current] at charged
        exact absurd charged (by decide)

end Dift.Et
