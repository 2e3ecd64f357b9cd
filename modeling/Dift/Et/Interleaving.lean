import Dift.Et.Reassembly

/-!
Owns concurrent reassembly in `getBuffers`. An entry is handed over exactly
when the last packet of a tick comes and each of its sources was contiguous.
So the loop delivers every tick with its last byte for those streams, and only
those, in which nothing of another tick stands between two packets of one tick
and source.
-/

namespace Dift.Et

open Dift.Foundation
open Dift.Wire
open Dift.Assemble

variable {setting : Setting} {traffic : Traffic setting} {stream : List Packet}

/-! ### Handing the entry over -/

theorem toNat_ofInt {value : Int} (nonneg : 0 ≤ value) (below : value < 2 ^ 64) :
    ((UInt64.ofInt value).toNat : Int) = value := by
  rw [UInt64.ofInt, UInt64.toNat_ofNat']
  omega

/-- A tick is not old when the biggest one is at most four prescales ahead. -/
theorem isOld_eq_false {biggest tick : UInt64} (nonneg : 0 ≤ setting.tickPrescale)
    (far : (tick.toNat : Int) + 4 * setting.tickPrescale < 2 ^ 64)
    (close : (biggest.toNat : Int) ≤ tick.toNat + 4 * setting.tickPrescale) :
    GetBuffers.isOld setting biggest tick = false := by
  have window : ((UInt64.ofInt (4 * setting.tickPrescale)).toNat : Int) =
      4 * setting.tickPrescale := toNat_ofInt (by omega) (by omega)
  have sum : (tick + UInt64.ofInt (4 * setting.tickPrescale)).toNat =
      tick.toNat + (UInt64.ofInt (4 * setting.tickPrescale)).toNat := by
    rw [UInt64.toNat_add]
    apply Nat.mod_eq_of_lt
    omega
  apply decide_eq_false
  rw [UInt64.lt_iff_toNat_lt, sum]
  omega

/-- What the reader gets for a tick: an event for each source, in their order,
flagged and with the payload. -/
def Delivered (traffic : Traffic setting) (tick : UInt64) (events : List Event) : Prop :=
  List.Forall₂ (fun source event => event.hasData = true ∧
    event.length.toNat = (traffic.sent tick source).payload.length ∧
    event.data.read 0 event.length.toNat = (traffic.sent tick source).payload)
    traffic.sources events

/-- The events of an entry are one for each source. -/
theorem contents_eq (traffic : Traffic setting) (fifo : Fifo) (entry : Nat) :
    fifo.contents setting.opened entry =
      (List.range traffic.sources.length).map fun index =>
        fifo.events (fifo.bufs entry index) := by
  rw [Fifo.contents, Opened.idCount, traffic.declared, List.length_map]

section Over

variable {seen rest : List Packet} {tick : UInt64} {state : State}

/-- The entry is complete when all its sources are finished. -/
theorem Standing.allHaveData_iff (standing : Standing traffic stream seen rest tick state) :
    state.fifo.allHaveData setting.opened state.entry = true ↔ Done traffic stream rest tick := by
  have inMap := standing.selected.inMap
  rw [standing.prevTick] at inMap
  rw [Fifo.allHaveData, contents_eq traffic, List.all_map, List.all_eq_true]
  constructor
  · intro all source member
    obtain ⟨index, inside, rfl⟩ := List.getElem_of_mem member
    refine (standing.events tick _ inMap index _ (List.getElem?_eq_getElem inside)).flag.mp ?_
    exact all index (List.mem_range.mpr inside)
  · intro done index member
    have inside := List.mem_range.mp member
    have declared := List.getElem?_eq_getElem inside
    exact (standing.events tick _ inMap index _ declared).flag.mpr
      (done _ (List.mem_of_getElem? declared))

/-- Between rounds, the tick is still in the map if it is not done. -/
theorem Standing.following (standing : Standing traffic stream seen rest tick state)
    (last : seen.getLast?.map Packet.tick = some tick)
    (unfinished : ¬ Done traffic stream rest tick) :
    Following traffic stream seen rest state where
  conserving := ⟨standing.selected.owned, standing.selected.current⟩
  prevTick := by rw [standing.prevTick, last, Option.getD_some]
  biggest := standing.biggest
  keys := by
    intro other
    refine (standing.keys other).trans ⟨?_, .inr⟩
    intro either
    rcases either with rfl | inKeys
    · obtain ⟨packet, isLast, rfl⟩ := Option.map_eq_some_iff.mp last
      exact ⟨⟨packet, List.mem_of_getLast? isLast, rfl⟩, unfinished⟩
    · exact inKeys
  events := standing.events
  arrays := by
    rw [standing.prevTick]
    exact fun _ => standing.arrays

/-- The tick goes out of the map with the entry. -/
theorem Standing.retire (standing : Standing traffic stream seen rest tick state)
    (last : seen.getLast?.map Packet.tick = some tick) (done : Done traffic stream rest tick)
    (stats : Option (Int → PacketRecvStats)) :
    Following traffic stream seen rest
      (GetBuffers.retire setting { state with stats := stats } tick state.entry) where
  conserving := by
    have inMap := standing.selected.inMap
    rw [standing.prevTick] at inMap
    exact ⟨GetBuffers.retire_owned (GetBuffers.owned_stats standing.selected.owned stats) inMap,
      GetBuffers.retire_current standing.selected.current tick state.entry⟩
  prevTick := by
    show state.prevTick = _
    rw [standing.prevTick, last, Option.getD_some]
  biggest := standing.biggest
  keys := by
    intro other
    have stays : other ∈ (state.buffers.filter fun pair => pair.1 ≠ tick).map Prod.fst ↔
        other ∈ state.buffers.map Prod.fst ∧ other ≠ tick := by
      simp only [List.mem_map, List.mem_filter, decide_eq_true_eq]
      constructor
      · intro kept
        obtain ⟨pair, ⟨inMap, different⟩, rfl⟩ := kept
        exact ⟨⟨pair, inMap, rfl⟩, different⟩
      · intro kept
        obtain ⟨⟨pair, inMap, rfl⟩, different⟩ := kept
        exact ⟨pair, ⟨inMap, different⟩, rfl⟩
    apply stays.trans
    rw [standing.keys other]
    constructor
    · intro both
      rcases both with ⟨same | inKeys, different⟩
      · exact absurd same different
      · exact inKeys
    · intro both
      obtain ⟨isSeen, unfinished⟩ := both
      refine ⟨.inr ⟨isSeen, unfinished⟩, ?_⟩
      rintro rfl
      exact unfinished done
  events := fun other entry inMap => standing.events other entry (List.mem_of_mem_filter inMap)
  arrays := by
    intro inMap
    obtain ⟨pair, member, isTick⟩ := List.mem_map.mp inMap
    have different := of_decide_eq_true (List.mem_filter.mp member).2
    exact absurd (isTick.trans standing.prevTick) different

end Over

section Stream

variable {seen rest : List Packet}
variable (arrives : stream.Perm traffic.packets) (split : stream = seen ++ rest)

include arrives split

/-- All pieces of a payload were seen when none is to come. -/
theorem part_perm_layout {tick : UInt64} (tickIn : tick ∈ traffic.ticks) {source : UInt16}
    (sourceIn : source ∈ traffic.sources)
    (noneLater : ∀ packet ∈ rest, ¬ (packet.tick = tick ∧ packet.dataId = source)) :
    ((part seen tick source).map Packet.piece).Perm
      (layout 0 (traffic.sent tick source).chunks) := by
  have sublist : seen.Sublist stream := by
    rw [split]
    exact List.sublist_append_left _ _
  obtain ⟨nodup, subset⟩ := part_pieces arrives sublist tick source
  refine perm_of_weight_le nodup subset
    (fun piece inPieces => (traffic.sent tick source).nonempty _ (mem_layout_block inPieces)) ?_
  rw [weight_layout]
  apply (part_complete_iff arrives sublist tickIn sourceIn).mpr
  intro packet member isPart
  rw [split] at member
  exact (List.mem_append.mp member).resolve_right fun late => noneLater packet late isPart

/-- A complete entry is one that should be delivered. -/
theorem Standing.delivered {tick : UInt64} {state : State}
    (standing : Standing traffic stream seen rest tick state) (tickIn : tick ∈ traffic.ticks)
    (done : Done traffic stream rest tick) :
    Delivered traffic tick (state.fifo.contents setting.opened state.entry) := by
  have inMap := standing.selected.inMap
  rw [standing.prevTick] at inMap
  rw [contents_eq traffic]
  refine List.forall₂_iff_get.mpr ⟨by simp, fun index inside _ => ?_⟩
  have declared := List.getElem?_eq_getElem inside
  have sourceIn := List.mem_of_getElem? declared
  have filled := standing.events tick _ inMap index _ declared
  have finished := done _ sourceIn
  obtain ⟨initial, isData⟩ := filled.data
  simp only [List.get_eq_getElem, List.getElem_map, List.getElem_range]
  refine ⟨filled.flag.mpr finished, filled.length finished, ?_⟩
  rw [filled.length finished, isData]
  exact Transmission.read_paste_packets initial
    (part_perm_layout arrives split tickIn sourceIn finished.2)

/-- No entry in the map is old. -/
theorem Following.young {state : State} (following : Following traffic stream seen rest state) :
    ∀ tick ∈ state.buffers.map Prod.fst,
      GetBuffers.isOld setting state.biggestTick tick = false := by
  intro tick member
  obtain ⟨⟨packet, inSeen, rfl⟩, -⟩ := (following.keys tick).mp member
  have inStream : packet ∈ stream := by simp [split, inSeen]
  have tickIn := (Traffic.mem_packets.mp (arrives.subset inStream)).1
  have self := traffic.close _ tickIn _ tickIn
  have far := traffic.far _ tickIn
  have biggest : (state.biggestTick.toNat : Int) ≤
      packet.tick.toNat + 4 * setting.tickPrescale := by
    rcases List.mem_cons.mp following.biggest with isZero | isTick
    · rw [isZero]
      show (0 : Int) ≤ _
      omega
    · exact traffic.close _ tickIn _ isTick
  exact isOld_eq_false (by omega) (by omega) biggest

end Stream

namespace GetBuffers

/-- The house cleaning finds nothing when no entry is old. -/
theorem clean_eq_self {state : State}
    (young : ∀ tick ∈ state.buffers.map Prod.fst, isOld setting state.biggestTick tick = false)
    (event : EventId) : clean setting state event = state := by
  have general : ∀ pairs : List (UInt64 × Nat), pairs ⊆ state.buffers →
      pairs.foldl (cleanOne setting event) state = state := by
    intro pairs
    induction pairs with
    | nil => exact fun _ => rfl
    | cons pair rest inductionHypothesis =>
        intro subset
        obtain ⟨inMap, restSubset⟩ := List.cons_subset.mp subset
        have stays : cleanOne setting event state pair = state := by
          rw [cleanOne, young pair.1 (List.mem_map_of_mem inMap), if_neg Bool.false_ne_true]
        rw [List.foldl_cons, stays]
        exact inductionHypothesis restSubset
  exact general _ (setting.orderPerm state.buffers).subset

end GetBuffers

/-! ### One round -/

/-- What one packet changes for the reader: with the last packet of a tick whose
sources are all finished, the entry is handed over. -/
structure HandsOver (traffic : Traffic setting) (stream rest : List Packet) (tick : UInt64)
    (before after : List (List Event)) : Prop where
  unfinished : ¬ Done traffic stream rest tick → after = before
  done : Done traffic stream rest tick → ∃ events, after = before ++ [events] ∧
    Delivered traffic tick events

section Round

variable {seen rest : List Packet} {packet : Packet}
variable (arrives : stream.Perm traffic.packets) (split : stream = seen ++ packet :: rest)

include arrives split

/-- The end of a round, when the event of the packet is flagged. -/
theorem finishEvent_following {state : State} {event : EventId}
    (standing : Standing traffic stream (seen ++ [packet]) rest packet.tick
      (GetBuffers.flagEvent state event)) :
    Following traffic stream (seen ++ [packet]) rest
        (GetBuffers.finishEvent setting state packet.tick event) ∧
      HandsOver traffic stream rest packet.tick state.fifo.reader
        (GetBuffers.finishEvent setting state packet.tick event).fifo.reader := by
  have tickIn := (Traffic.mem_packets.mp (member_stream arrives split)).1
  have cut : stream = seen ++ [packet] ++ rest := by simp [split]
  have last : (seen ++ [packet]).getLast?.map Packet.tick = some packet.tick := by simp
  unfold GetBuffers.finishEvent
  simp only
  split
  case isTrue all =>
    have done := standing.allHaveData_iff.mp all
    refine ⟨standing.retire last done _, fun unfinished => absurd done unfinished, fun _ => ?_⟩
    exact ⟨_, rfl, standing.delivered arrives cut tickIn done⟩
  case isFalse more =>
    have unfinished : ¬ Done traffic stream rest packet.tick := fun done =>
      more (standing.allHaveData_iff.mpr done)
    exact ⟨standing.following last unfinished, fun _ => rfl, fun done => absurd done unfinished⟩

/-- The rest of a round after the entry was selected. -/
theorem store_following {state : State}
    (standing : Standing traffic stream seen (packet :: rest) packet.tick state)
    (held : state.packetBuffer.read reHeaderBytes packet.payload.length = packet.payload)
    {index : Nat} (declared : traffic.sources[index]? = some packet.dataId) :
    ∃ after, GetBuffers.store setting state index (Complete.fields packet)
        (reHeaderBytes + packet.payload.length) = .again after ∧
      Following traffic stream (seen ++ [packet]) rest after ∧
      HandsOver traffic stream rest packet.tick state.fifo.reader after.fifo.reader := by
  obtain ⟨tickIn, sourceIn, member⟩ := Traffic.mem_packets.mp (member_stream arrives split)
  have cut : stream = seen ++ [packet] ++ rest := by simp [split]
  have room : ¬ (Complete.fields packet).length.toNat > setting.opened.bufSize.toNat := by
    show ¬ packet.length.toNat > _
    rw [Transmission.mem_length member]
    exact not_lt.mpr (traffic.room _ tickIn _ sourceIn)
  obtain ⟨cache, isCache, right⟩ := standing.arrays
  have writes := writePacket_ok arrives split standing held index isCache
  obtain ⟨selected, inside, -⟩ := GetBuffers.writePacket_selected standing.selected writes
  unfold GetBuffers.store
  rw [if_neg room, writes]
  simp only
  split
  case isTrue enough =>
    have finished := (total_ge_iff arrives split right declared).mp enough
    have flagged := flagEvent_standing arrives split standing right declared selected inside
      finished
    obtain ⟨following, handed⟩ := finishEvent_following arrives split flagged
    exact ⟨_, congrArg _ (GetBuffers.clean_eq_self (following.young arrives cut) _), following,
      handed⟩
  case isFalse few =>
    have unfinished : ¬ Finished stream rest packet.tick packet.dataId := fun finished =>
      few ((total_ge_iff arrives split right declared).mpr finished)
    have notDone : ¬ Done traffic stream rest packet.tick := fun done =>
      unfinished (done _ sourceIn)
    have following := (withPacket_standing standing right declared selected unfinished).following
      (by simp) notDone
    exact ⟨_, congrArg _ (GetBuffers.clean_eq_self (following.young arrives cut) _), following,
      fun _ => rfl, fun done => absurd done notDone⟩

/-- One round of the loop. -/
theorem round_following {state : State}
    (following : Following traffic stream seen (packet :: rest) state) :
    ∃ after, GetBuffers.round setting state packet.recv = .again after ∧
      Following traffic stream (seen ++ [packet]) rest after ∧
      HandsOver traffic stream rest packet.tick state.fifo.reader after.fifo.reader := by
  have member := member_stream arrives split
  obtain ⟨index, found, declared⟩ :=
    Traffic.exists_index (Traffic.mem_packets.mp member).2.1
  have received : Following traffic stream seen (packet :: rest)
      (GetBuffers.received state packet) :=
    ⟨⟨following.conserving.owned.congr rfl rfl rfl rfl rfl rfl, following.conserving.current⟩,
      following.prevTick, following.biggest, following.keys, following.events, following.arrays⟩
  obtain ⟨selected, selects, standing, reader, buffer⟩ := select_standing arrives split received
  have held : selected.packetBuffer.read reHeaderBytes packet.payload.length = packet.payload := by
    rw [buffer]
    have both := Memory.read_split (Memory.read_write_self state.packetBuffer 0 packet.bytes)
    rw [reHeader_length, Nat.zero_add] at both
    exact both.2
  obtain ⟨after, stores, next, handed⟩ := store_following arrives split standing held declared
  refine ⟨after, ?_, next, ?_⟩
  · rw [GetBuffers.round_packet state (Traffic.proper member), found]
    simp only [GetBuffers.accept]
    rw [show (Complete.fields packet).tick = packet.tick from rfl, selects]
    exact stores
  · rw [show state.fifo.reader = selected.fifo.reader from reader.symm]
    exact handed

end Round

/-! ### Runs -/

/-- The last byte of the tick has arrived. -/
def Arrived (seen rest : List Packet) (tick : UInt64) : Prop :=
  (∃ packet ∈ seen, packet.tick = tick) ∧ ∀ packet ∈ rest, packet.tick ≠ tick

/-- The reader has got one entry for each tick whose last byte has arrived, as
it should be delivered, and nothing else. -/
def HandedOver (traffic : Traffic setting) (seen rest : List Packet)
    (reader : List (List Event)) : Prop :=
  ∃ ticks : List UInt64, ticks.Nodup ∧ (∀ tick, tick ∈ ticks ↔ Arrived seen rest tick) ∧
    List.Forall₂ (Delivered traffic) ticks reader

/-- The loop takes all packets of a stream, and hands over each tick once,
exactly when its last byte has arrived. -/
structure DeliversEach (traffic : Traffic setting) (begun : State) (stream : List Packet) :
    Prop where
  always : ∀ seen rest, stream = seen ++ rest → ∃ state,
    getBuffers setting begun (seen.map Packet.recv) = .waiting state ∧
      HandedOver traffic seen rest state.fifo.reader

theorem arrived_append_iff {seen rest : List Packet} {packet : Packet} {tick : UInt64} :
    Arrived (seen ++ [packet]) rest tick ↔ Arrived seen (packet :: rest) tick ∨
      tick = packet.tick ∧ ∀ one ∈ rest, one.tick ≠ packet.tick := by
  unfold Arrived
  by_cases same : packet.tick = tick
  · subst same
    simp
  · simp [same, Ne.symm same]

theorem start_following (traffic : Traffic setting) (stream : List Packet) {packetBuffer : Mem}
    {begun : State} (starts : GetBuffers.start setting packetBuffer = .ok begun) :
    Following traffic stream [] stream begun ∧ begun.fifo.reader = [] := by
  have conserving := GetBuffers.start_conserving starts
  unfold GetBuffers.start at starts
  split at starts
  case isTrue => cases starts
  case isFalse =>
    split at starts
    case isTrue => cases starts
    case isFalse =>
      cases starts
      exact ⟨⟨conserving, rfl, List.mem_cons_self, by simp, nofun, nofun⟩, rfl⟩

section Run

variable (arrives : stream.Perm traffic.packets) {packetBuffer : Mem} {begun : State}
variable (starts : GetBuffers.start setting packetBuffer = .ok begun)

include arrives starts

/-- The invariant holds after any packets of the stream. -/
theorem getBuffers_following {seen rest : List Packet} (split : stream = seen ++ rest) :
    ∃ state, getBuffers setting begun (seen.map Packet.recv) = .waiting state ∧
      Following traffic stream seen rest state := by
  induction seen using List.reverseRecOn generalizing rest with
  | nil =>
      obtain rfl : stream = rest := split
      exact ⟨begun, rfl, (start_following traffic stream starts).1⟩
  | append_singleton earlier packet inductionHypothesis =>
      rw [List.append_assoc, List.singleton_append] at split
      obtain ⟨state, reached, following⟩ := inductionHypothesis split
      obtain ⟨after, steps, next, -⟩ := round_following arrives split following
      refine ⟨after, ?_, next⟩
      rw [List.map_append]
      exact (feed_append_of_waiting reached _).trans (feed_cons_of_again steps [])

/-- What the next packet of the stream changes for the reader. -/
theorem getBuffers_handsOver {seen rest : List Packet} {packet : Packet}
    (split : stream = seen ++ packet :: rest) :
    ∃ before after, getBuffers setting begun (seen.map Packet.recv) = .waiting before ∧
      getBuffers setting begun ((seen ++ [packet]).map Packet.recv) = .waiting after ∧
      HandsOver traffic stream rest packet.tick before.fifo.reader after.fifo.reader := by
  obtain ⟨before, reached, following⟩ := getBuffers_following arrives starts split
  obtain ⟨after, steps, -, handed⟩ := round_following arrives split following
  refine ⟨before, after, reached, ?_, handed⟩
  rw [List.map_append]
  exact (feed_append_of_waiting reached _).trans (feed_cons_of_again steps [])

end Run

section Contiguous

variable (arrives : stream.Perm traffic.packets)

include arrives

/-- With contiguous parts a tick is done when none of its packets is to come. -/
theorem done_iff_of_contiguous {seen rest : List Packet} (split : stream = seen ++ rest)
    {tick : UInt64} (contiguous : ∀ source ∈ traffic.sources, Contiguous stream tick source) :
    Done traffic stream rest tick ↔ ∀ packet ∈ rest, packet.tick ≠ tick := by
  constructor
  · rintro done packet late rfl
    have inStream : packet ∈ stream := by simp [split, late]
    have sourceIn := (Traffic.mem_packets.mp (arrives.subset inStream)).2.1
    exact (done _ sourceIn).2 packet late ⟨rfl, rfl⟩
  · intro noneLater source sourceIn
    exact ⟨contiguous source sourceIn, fun packet late same => noneLater packet late same.1⟩

/-- There are packets of each tick. -/
theorem exists_packet {tick : UInt64} (tickIn : tick ∈ traffic.ticks) {source : UInt16}
    (sourceIn : source ∈ traffic.sources) : ∃ packet ∈ stream, packet.tick = tick := by
  obtain ⟨packet, member⟩ := List.exists_mem_of_ne_nil
    (traffic.packetsOf tick source) Transmission.packets_ne_nil
  obtain ⟨rfl, rfl⟩ := Traffic.mem_packetsOf member
  exact ⟨packet, arrives.symm.subset (Traffic.mem_packets.mpr ⟨tickIn, sourceIn, member⟩), rfl⟩

end Contiguous

/-- One more tick has arrived with its last packet. -/
theorem HandedOver.grow {seen rest : List Packet} {packet : Packet} {reader : List (List Event)}
    (handed : HandedOver traffic seen (packet :: rest) reader)
    (noneLater : ∀ one ∈ rest, one.tick ≠ packet.tick) {events : List Event}
    (delivered : Delivered traffic packet.tick events) :
    HandedOver traffic (seen ++ [packet]) rest (reader ++ [events]) := by
  obtain ⟨ticks, nodup, all, each⟩ := handed
  have fresh : packet.tick ∉ ticks := fun member =>
    ((all _).mp member).2 packet List.mem_cons_self rfl
  refine ⟨ticks ++ [packet.tick], ?_, fun tick => ?_, ?_⟩
  · exact List.nodup_append.mpr ⟨nodup, List.nodup_singleton _, by
      rintro tick member _ isLast rfl
      exact fresh (List.mem_singleton.mp isLast ▸ member)⟩
  · rw [arrived_append_iff, List.mem_append, all, List.mem_singleton]
    exact or_congr_right (and_iff_left noneLater).symm
  · exact List.rel_append each (.cons delivered .nil)

theorem HandedOver.keep {seen rest : List Packet} {packet : Packet} {reader : List (List Event)}
    (handed : HandedOver traffic seen (packet :: rest) reader)
    (later : ¬ ∀ one ∈ rest, one.tick ≠ packet.tick) :
    HandedOver traffic (seen ++ [packet]) rest reader := by
  obtain ⟨ticks, nodup, all, each⟩ := handed
  refine ⟨ticks, nodup, fun tick => ?_, each⟩
  rw [arrived_append_iff, all]
  exact (or_iff_left fun last => later last.2).symm

/-- The reader grows with the last packet of a tick. -/
theorem HandedOver.length_succ {seen rest : List Packet} {packet : Packet}
    {before after : List (List Event)}
    (handed : HandedOver traffic seen (packet :: rest) before)
    (next : HandedOver traffic (seen ++ [packet]) rest after)
    (noneLater : ∀ one ∈ rest, one.tick ≠ packet.tick) : after.length = before.length + 1 := by
  obtain ⟨ticks, nodup, all, each⟩ := handed
  obtain ⟨more, moreNodup, moreAll, moreEach⟩ := next
  have fresh : packet.tick ∉ ticks := fun member =>
    ((all _).mp member).2 packet List.mem_cons_self rfl
  have same : more.Perm (packet.tick :: ticks) := by
    refine (List.perm_ext_iff_of_nodup moreNodup (List.nodup_cons.mpr ⟨fresh, nodup⟩)).mpr ?_
    intro tick
    rw [moreAll, arrived_append_iff, List.mem_cons, all, or_comm, and_iff_left noneLater]
  rw [← moreEach.length_eq, ← each.length_eq, same.length_eq, List.length_cons]

/-- The loop delivers each tick when its last byte has arrived, exactly for the
streams in which nothing of another tick stands between two packets of one tick
and source. -/
theorem getBuffers_delivers_iff {setting : Setting} (traffic : Traffic setting)
    {packetBuffer : Mem} {begun : State}
    (starts : GetBuffers.start setting packetBuffer = .ok begun) {stream : List Packet}
    (arrives : stream.Perm traffic.packets) :
    DeliversEach traffic begun stream ↔
      ∀ tick ∈ traffic.ticks, ∀ source ∈ traffic.sources, Contiguous stream tick source := by
  constructor
  · intro delivers tick tickIn source sourceIn
    obtain ⟨seen, packet, rest, split, rfl, noneLater⟩ :=
      exists_last (exists_packet arrives tickIn sourceIn)
    obtain ⟨before, after, reached, next, handed⟩ := getBuffers_handsOver arrives starts split
    obtain ⟨state, isBefore, handedBefore⟩ := delivers.always seen (packet :: rest) split
    obtain rfl : before = state := Fed.waiting.inj (reached.symm.trans isBefore)
    obtain ⟨last, isAfter, handedAfter⟩ :=
      delivers.always (seen ++ [packet]) rest (by simp [split])
    obtain rfl : after = last := Fed.waiting.inj (next.symm.trans isAfter)
    have grows := handedBefore.length_succ handedAfter noneLater
    by_contra scattered
    have unfinished : ¬ Done traffic stream rest packet.tick := fun done =>
      scattered (done source sourceIn).1
    rw [handed.unfinished unfinished] at grows
    omega
  · intro contiguous
    refine ⟨fun seen => ?_⟩
    induction seen using List.reverseRecOn with
    | nil =>
        intro rest split
        obtain ⟨-, reader⟩ := start_following traffic stream starts
        refine ⟨begun, rfl, [], List.nodup_nil, fun tick => ?_, ?_⟩
        · simp [Arrived]
        · rw [reader]
          exact .nil
    | append_singleton earlier packet inductionHypothesis =>
        intro rest split
        have cut : stream = earlier ++ packet :: rest := by simp [split]
        have tickIn := (Traffic.mem_packets.mp (member_stream arrives cut)).1
        obtain ⟨before, after, reached, next, handed⟩ := getBuffers_handsOver arrives starts cut
        obtain ⟨state, isBefore, handedBefore⟩ := inductionHypothesis (packet :: rest) cut
        obtain rfl : before = state := Fed.waiting.inj (reached.symm.trans isBefore)
        refine ⟨after, next, ?_⟩
        have doneIff := done_iff_of_contiguous arrives split (contiguous packet.tick tickIn)
        by_cases done : Done traffic stream rest packet.tick
        · obtain ⟨events, grown, delivered⟩ := handed.done done
          rw [grown]
          exact handedBefore.grow (doneIff.mp done) delivered
        · rw [handed.unfinished done]
          exact handedBefore.keep fun noneLater => done (doneIff.mpr noneLater)

theorem halves_ne_nil : ([[1], [2]] : List (List UInt8)) ≠ [] := by decide

theorem halves_nonempty : ∀ chunk ∈ ([[1], [2]] : List (List UInt8)), chunk ≠ [] := by decide

theorem halves_fit : ∀ chunk ∈ ([[1], [2]] : List (List UInt8)), chunk.length ≤ 65500 := by
  decide

theorem halves_short : ([[1], [2]] : List (List UInt8)).flatten.length < 2 ^ 32 := by decide

/-- Two bytes in two packets. -/
def sampleTransmission : Transmission where
  version := 2
  reserved := 0
  chunks := [[1], [2]]
  versionNonneg := versionTwo_nonneg
  versionLt := versionTwo_lt
  hasChunks := halves_ne_nil
  nonempty := halves_nonempty
  fits := halves_fit
  short := halves_short

/-- Ticks 5 and 6, of one source. -/
def sampleTraffic : Traffic sampleSetting where
  sources := [7]
  ticks := [5, 6]
  sent := fun _ _ => sampleTransmission
  declared := rfl
  sourcesNodup := by decide
  ticksNodup := by decide
  jumbo := fun _ _ _ _ => by decide
  room := fun _ _ _ _ => by decide
  close := by
    intro tick tickIn other otherIn
    rcases List.mem_pair.mp tickIn with rfl | rfl <;>
      rcases List.mem_pair.mp otherIn with rfl | rfl <;> decide
  far := by
    intro tick tickIn
    rcases List.mem_pair.mp tickIn with rfl | rfl <;> decide
  memory := fun _ => rfl
  accepts := fun _ => rfl

/-- The packet with the first or second byte of a tick. -/
def sampleHalf (tick : UInt64) (offset : Nat) (byte : UInt8) : Packet :=
  sampleTransmission.packet tick 7 ⟨offset, [byte]⟩

/-- One tick after the other. -/
theorem getBuffers_delivers_sample :
    DeliversEach sampleTraffic sampleBegun sampleTraffic.packets := by
  apply (getBuffers_delivers_iff sampleTraffic start_sampleSetting (List.Perm.refl _)).mpr
  have nodup : sampleTraffic.packets.Nodup := Traffic.packets_nodup
  intro tick tickIn source sourceIn
  obtain rfl := List.mem_singleton.mp sourceIn
  rcases List.mem_pair.mp tickIn with rfl | rfl
  · exact together_of_block [] [sampleHalf 5 0 1, sampleHalf 5 1 2]
      [sampleHalf 6 0 1, sampleHalf 6 1 2] nodup (by decide) (by decide)
  · exact together_of_block [sampleHalf 5 0 1, sampleHalf 5 1 2]
      [sampleHalf 6 0 1, sampleHalf 6 1 2] [] nodup (by decide) (by decide)

/-- Packets of the two ticks take turns. -/
def sampleTurns : List Packet :=
  [sampleHalf 5 0 1, sampleHalf 6 0 1, sampleHalf 5 1 2, sampleHalf 6 1 2]

/-- How many filled buffers can be read when the calls wait. -/
def readable : Fed State Stopped Recv → Nat
  | .waiting state => state.fifo.reader.length
  | .left _ _ => 0

/-- The ticks take turns: no entry is handed over. -/
theorem not_delivers_sampleTurns :
    GetBuffers.start sampleSetting (fun _ => 0) = .ok sampleBegun ∧
      sampleTurns.Perm sampleTraffic.packets ∧
      ¬ DeliversEach sampleTraffic sampleBegun sampleTurns := by
  refine ⟨rfl, by decide +kernel, fun delivers => ?_⟩
  obtain ⟨state, reached, ticks, -, all, each⟩ := delivers.always sampleTurns [] (by simp)
  have noneRead : readable (getBuffers sampleSetting sampleBegun (sampleTurns.map Packet.recv)) =
      0 := by
    decide +kernel
  rw [reached] at noneRead
  have noTicks : ticks = [] := List.length_eq_zero_iff.mp (each.length_eq.trans noneRead)
  have arrived : Arrived sampleTurns [] 5 :=
    ⟨⟨_, List.mem_cons_self, rfl⟩, fun _ member => absurd member List.not_mem_nil⟩
  have member := (all 5).mpr arrived
  rw [noTicks] at member
  cases member

end Dift.Et
