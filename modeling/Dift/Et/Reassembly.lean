import Dift.Et.Traffic

/-!
Owns what the events hold while `getBuffers` reassembles several ticks.
`Following` says it between rounds and `Standing` inside of one: every event in
the map has got all pieces that came, its flag is set exactly when the packets
of its tick and source were contiguous and are all there, and the arrays count
the bytes since the last change of the tick. Selecting an entry and writing a
packet keep it, for any order of packets.
-/

namespace Dift.Et

open Dift.Foundation
open Dift.Wire
open Dift.Assemble

variable {setting : Setting} (traffic : Traffic setting) (stream : List Packet)

/-- Every source of the tick is finished. -/
def Done (rest : List Packet) (tick : UInt64) : Prop :=
  ∀ source ∈ traffic.sources, Finished stream rest tick source

/-- What an event holds after some packets. -/
structure Filled (seen rest : List Packet) (tick : UInt64) (source : UInt16) (event : Event) :
    Prop where
  data : ∃ initial, event.data = paste initial ((part seen tick source).map Packet.piece)
  flag : event.hasData = true ↔ Finished stream rest tick source
  length : Finished stream rest tick source →
    event.length.toNat = (traffic.sent tick source).payload.length

/-- What the arrays hold: the bytes since the last change of the tick, and
flags that are not set too early. -/
def ArraysRight (seen rest : List Packet) (tick : UInt64) (cache : Cache) : Prop :=
  ∀ index source, traffic.sources[index]? = some source →
    cache.bytesWritten index =
        UInt64.ofNat (weight ((part (session seen tick) tick source).map Packet.piece)) ∧
      (cache.controls index 1 ≠ 0 → Finished stream rest tick source)

/-- All events in the map hold what they should. -/
def EventsFilled (seen rest : List Packet) (state : State) : Prop :=
  ∀ tick entry, (tick, entry) ∈ state.buffers → ∀ index source,
    traffic.sources[index]? = some source →
    Filled traffic stream seen rest tick source (state.fifo.events (state.fifo.bufs entry index))

/-- The state inside of a round, with the entry of a tick selected. -/
structure Standing (seen rest : List Packet) (tick : UInt64) (state : State) : Prop where
  selected : GetBuffers.Selected state
  prevTick : state.prevTick = tick
  biggest : state.biggestTick ∈ 0 :: traffic.ticks
  keys : ∀ other, other ∈ state.buffers.map Prod.fst ↔
    other = tick ∨ (∃ packet ∈ seen, packet.tick = other) ∧ ¬ Done traffic stream rest other
  events : EventsFilled traffic stream seen rest state
  arrays : ∃ cache, state.cache = some cache ∧ ArraysRight traffic stream seen rest tick cache

/-- The state between rounds. -/
structure Following (seen rest : List Packet) (state : State) : Prop where
  conserving : GetBuffers.Conserving state
  prevTick : state.prevTick = (seen.getLast?.map Packet.tick).getD 0xFFFFFFFFFFFFFFFF
  biggest : state.biggestTick ∈ 0 :: traffic.ticks
  keys : ∀ tick, tick ∈ state.buffers.map Prod.fst ↔
    (∃ packet ∈ seen, packet.tick = tick) ∧ ¬ Done traffic stream rest tick
  events : EventsFilled traffic stream seen rest state
  arrays : state.prevTick ∈ state.buffers.map Prod.fst →
    ∃ cache, state.cache = some cache ∧ ArraysRight traffic stream seen rest state.prevTick cache

/-! ### One packet more -/

variable {traffic stream}

/-- A packet of another tick or source changes nothing. -/
theorem finished_cons_iff {packet : Packet} {rest : List Packet} {tick : UInt64} {source : UInt16}
    (other : ¬ (packet.tick = tick ∧ packet.dataId = source)) :
    Finished stream (packet :: rest) tick source ↔ Finished stream rest tick source := by
  rw [Finished, Finished, List.forall_mem_cons]
  exact and_congr_right fun _ => and_iff_right other

theorem not_finished_cons {packet : Packet} {rest : List Packet} :
    ¬ Finished stream (packet :: rest) packet.tick packet.dataId :=
  fun finished => finished.2 packet List.mem_cons_self ⟨rfl, rfl⟩

theorem Finished.tail {packet : Packet} {rest : List Packet} {tick : UInt64} {source : UInt16}
    (finished : Finished stream (packet :: rest) tick source) :
    Finished stream rest tick source :=
  ⟨finished.1, fun one member => finished.2 one (List.mem_cons_of_mem _ member)⟩

theorem done_cons_iff {packet : Packet} {rest : List Packet} {tick : UInt64}
    (other : packet.tick ≠ tick) :
    Done traffic stream (packet :: rest) tick ↔ Done traffic stream rest tick :=
  forall₂_congr fun _ _ => finished_cons_iff fun same => other same.1

theorem Filled.other {seen rest : List Packet} {packet : Packet} {tick : UInt64}
    {source : UInt16} {event : Event}
    (filled : Filled traffic stream seen (packet :: rest) tick source event)
    (other : ¬ (packet.tick = tick ∧ packet.dataId = source)) :
    Filled traffic stream (seen ++ [packet]) rest tick source event where
  data := by
    rw [part_append, part_single_other other, List.append_nil]
    exact filled.data
  flag := filled.flag.trans (finished_cons_iff other)
  length := fun finished => filled.length ((finished_cons_iff other).mpr finished)

/-! ### Selecting the entry -/

section Round

variable {seen rest : List Packet} {packet : Packet}
variable (arrives : stream.Perm traffic.packets) (split : stream = seen ++ packet :: rest)

include arrives split

theorem member_stream : packet ∈ traffic.packets :=
  arrives.subset (by simp [split])

/-- Each source of the packet's tick still waits for a packet if none of the
tick was seen. -/
theorem not_finished_of_unseen (unseen : ∀ one ∈ seen, one.tick ≠ packet.tick)
    {source : UInt16} (declared : source ∈ traffic.sources) :
    ¬ Finished stream (packet :: rest) packet.tick source := by
  rcases Traffic.mem_packets.mp (member_stream arrives split) with ⟨tickIn, -, -⟩
  rcases List.exists_mem_of_ne_nil
    (traffic.packetsOf packet.tick source) Transmission.packets_ne_nil with ⟨one, isOne⟩
  rcases Traffic.mem_packetsOf isOne with ⟨sameTick, sameSource⟩
  have inStream : one ∈ stream := arrives.symm.subset (Traffic.mem_packets.mpr
    (by rw [sameTick, sameSource]; exact ⟨tickIn, declared, isOne⟩))
  rw [split] at inStream
  rcases List.mem_append.mp inStream with early | late
  · exact absurd sameTick (unseen one early)
  · exact fun finished => finished.2 one late ⟨sameTick, sameSource⟩

theorem not_done : ¬ Done traffic stream (packet :: rest) packet.tick :=
  fun done => not_finished_cons (done packet.dataId
    (Traffic.mem_packets.mp (member_stream arrives split)).2.1)

end Round

theorem session_append (seen : List Packet) (packet : Packet) :
    session (seen ++ [packet]) packet.tick = session seen packet.tick ++ [packet] :=
  stretch_append_of_inner rfl

/-- A changed tick has no packets since the change. -/
theorem session_eq_nil {seen : List Packet} {tick : UInt64}
    (changed : tick ≠ (seen.getLast?.map Packet.tick).getD 0xFFFFFFFFFFFFFFFF) :
    session seen tick = [] := by
  rcases List.eq_nil_or_concat seen with rfl | ⟨earlier, last, rfl⟩
  · rfl
  · rw [List.concat_eq_append] at changed ⊢
    refine stretch_append_of_foreign fun same => changed ?_
    simp [same]

/-- The arrays right after a tick was looked up. -/
theorem arraysRight_load {seen rest : List Packet} {packet : Packet} {state : State}
    {entry : Nat} (changed : session seen packet.tick = [])
    (filled : ∀ index source, traffic.sources[index]? = some source →
      Filled traffic stream seen (packet :: rest) packet.tick source
        (state.fifo.events (state.fifo.bufs entry index))) :
    ∃ cache, (GetBuffers.load state entry).cache = some cache ∧
      ArraysRight traffic stream seen (packet :: rest) packet.tick cache := by
  refine ⟨_, rfl, fun index source declared => ⟨?_, fun flagged => ?_⟩⟩
  · rw [changed]
    rfl
  · exact (filled index source declared).flag.mp (decide_eq_true flagged)

/-- With enough memory there is always an entry. -/
theorem takeEntry_ok (memory : ∀ count, setting.opened.noMemory count = false) (state : State) :
    ∃ entry free created, GetBuffers.takeEntry setting state =
      .ok (entry, { state with
        freeEntries := free
        fifo := { state.fifo with created := created } }) := by
  unfold GetBuffers.takeEntry
  split
  · rw [Fifo.entryCreate, memory]
    exact ⟨_, _, _, rfl⟩
  · exact ⟨_, _, state.fifo.created, rfl⟩

/-- The state with a tick in the map that has got an entry and fresh events. -/
def withTick (setting : Setting) (state : State) (tick : UInt64) (entry : Nat) (free : List Nat)
    (created : Nat) : State :=
  { state with
    freeEntries := free
    fifo := { state.fifo with
      created := created
      events := fun id =>
        if id.1 = state.fifo.filled then setting.opened.fresh id else state.fifo.events id
      fill := Function.update state.fifo.fill entry state.fifo.filled
      filled := state.fifo.filled + 1 }
    buffers := (tick, entry) :: state.buffers
    biggestTick := if tick > state.biggestTick then tick else state.biggestTick
    log := state.log ++ [.newEntry entry] }

/-- The first packet of a tick opens it with an entry that was free or new. -/
theorem openTick_eq (accepts : ∀ count, setting.opened.refusal count = none) {state : State}
    (tick : UInt64) {entry created : Nat} {free : List Nat}
    (taken : GetBuffers.takeEntry setting state = .ok (entry, { state with
      freeEntries := free
      fifo := { state.fifo with created := created } })) :
    GetBuffers.openTick setting state tick =
      .ok (GetBuffers.load (withTick setting state tick entry free created) entry) := by
  unfold GetBuffers.openTick
  rw [taken]
  simp only [Fifo.newEntry, accepts]
  rfl

/-- The first packet of a tick finds an entry that is not in the map. -/
theorem openTick_ok (traffic : Traffic setting) {state : State} (owned : Owned state)
    (tick : UInt64) :
    ∃ entry free created, entry ∉ state.values ∧
      GetBuffers.openTick setting state tick =
        .ok (GetBuffers.load (withTick setting state tick entry free created) entry) := by
  rcases takeEntry_ok traffic.memory state with ⟨entry, free, created, taken⟩
  refine ⟨entry, free, created, ?_, openTick_eq traffic.accepts tick taken⟩
  have all := (GetBuffers.takeEntry_owned owned taken).1
  have nodup := all.nodup_iff.mpr List.nodup_range
  exact fun member => (List.nodup_cons.mp nodup).1 (List.mem_append_right _ member)

/-- The events of other ticks stay what they were. -/
theorem withTick_event_of_mem {state : State} (owned : Owned state) {tick other : UInt64}
    {entry old : Nat} (outside : entry ∉ state.values) (inMap : (other, old) ∈ state.buffers)
    (free : List Nat) (created index : Nat) :
    (withTick setting state tick entry free created).fifo.events
        ((withTick setting state tick entry free created).fifo.bufs old index) =
      state.fifo.events (state.fifo.bufs old index) := by
  have different : old ≠ entry := by
    rintro rfl
    exact outside (List.mem_map_of_mem inMap)
  have earlier : state.fifo.fill old < state.fifo.filled :=
    owned.filled _ (List.mem_map_of_mem inMap)
  have sameFill : Function.update state.fifo.fill entry state.fifo.filled old =
      state.fifo.fill old := Function.update_of_ne different _ _
  simp only [withTick, Fifo.bufs, sameFill]
  rw [if_neg earlier.ne]

theorem withTick_event_self (setting : Setting) (state : State) (tick : UInt64) (entry : Nat)
    (free : List Nat) (created index : Nat) :
    (withTick setting state tick entry free created).fifo.events
        ((withTick setting state tick entry free created).fifo.bufs entry index) =
      setting.opened.fresh (state.fifo.filled, index) := by
  simp only [withTick, Fifo.bufs, Function.update_self, if_true]

/-- A tick that is in the map adds nothing to it. -/
theorem Following.keys_of_mem {seen rest : List Packet} {state : State}
    (following : Following traffic stream seen rest state) {tick : UInt64}
    (inMap : tick ∈ state.buffers.map Prod.fst) (other : UInt64) :
    other ∈ state.buffers.map Prod.fst ↔
      other = tick ∨ (∃ packet ∈ seen, packet.tick = other) ∧ ¬ Done traffic stream rest other := by
  constructor
  · intro inKeys
    exact .inr ((following.keys other).mp inKeys)
  · intro either
    rcases either with rfl | inKeys
    · exact inMap
    · exact (following.keys other).mpr inKeys

section Round

variable {seen rest : List Packet} {packet : Packet}
variable (arrives : stream.Perm traffic.packets) (split : stream = seen ++ packet :: rest)

include arrives split

/-- The events after a tick was opened. -/
theorem withTick_filled {state : State}
    (following : Following traffic stream seen (packet :: rest) state)
    (unseen : ∀ one ∈ seen, one.tick ≠ packet.tick) {entry : Nat}
    (outside : entry ∉ state.values) (free : List Nat) (created : Nat) :
    EventsFilled traffic stream seen (packet :: rest)
      (withTick setting state packet.tick entry free created) := by
  intro tick old member index source declared
  rcases List.mem_cons.mp member with isNew | inMap
  · rcases Prod.mk.inj isNew with ⟨rfl, rfl⟩
    rw [withTick_event_self]
    have waits := not_finished_of_unseen arrives split unseen (List.mem_of_getElem? declared)
    have nothing : part seen packet.tick source = [] :=
      List.filter_eq_nil_iff.mpr fun one inSeen => by simp [unseen one inSeen]
    refine ⟨⟨_, by rw [nothing]; rfl⟩, ⟨fun flagged => ?_, fun done => absurd done waits⟩,
      fun done => absurd done waits⟩
    simp [Event.hasData, Opened.fresh] at flagged
  · rw [withTick_event_of_mem following.conserving.owned outside inMap]
    exact following.events tick old inMap index source declared

/-- The packet before was of the same tick, which is still in the map. -/
theorem select_same {state : State}
    (following : Following traffic stream seen (packet :: rest) state)
    (same : packet.tick = state.prevTick) :
    GetBuffers.selectEntry setting state packet.tick = .ok state ∧
      Standing traffic stream seen (packet :: rest) packet.tick
        { state with prevTick := packet.tick } := by
  have tickIn := (Traffic.mem_packets.mp (member_stream arrives split)).1
  have inMap : packet.tick ∈ state.buffers.map Prod.fst := by
    refine (following.keys _).mpr ⟨?_, not_done arrives split⟩
    rw [following.prevTick] at same
    cases last : seen.getLast? with
    | some one =>
        rw [last] at same
        exact ⟨one, List.mem_of_getLast? last, same.symm⟩
    | none =>
        rw [last] at same
        exact absurd same (traffic.tick_ne_max tickIn)
  have selects : GetBuffers.selectEntry setting state packet.tick = .ok state := by
    rw [GetBuffers.selectEntry, if_neg (not_ne_iff.mpr same)]
  refine ⟨selects, ?_, rfl, following.biggest, ?_, following.events, ?_⟩
  · exact GetBuffers.selected_of_selectEntry following.conserving (.inr inMap) selects
  · exact following.keys_of_mem inMap
  · rw [same] at inMap ⊢
    exact following.arrays inMap

omit arrives split in
/-- The tick is another one than before, and its entry is in the map. -/
theorem select_found {state : State}
    (following : Following traffic stream seen (packet :: rest) state)
    (new : packet.tick ≠ state.prevTick) {entry : Nat}
    (found : state.buffers.lookup packet.tick = some entry) :
    GetBuffers.selectEntry setting state packet.tick = .ok (GetBuffers.load state entry) ∧
      Standing traffic stream seen (packet :: rest) packet.tick
        { GetBuffers.load state entry with prevTick := packet.tick } := by
  have changed : session seen packet.tick = [] := by
    rw [following.prevTick] at new
    exact session_eq_nil new
  have selects : GetBuffers.selectEntry setting state packet.tick =
      .ok (GetBuffers.load state entry) := by
    rw [GetBuffers.selectEntry, if_pos new, found]
  rcases List.lookup_eq_some_iff.mp found with ⟨before, after, isSplit, -⟩
  have inMap : (packet.tick, entry) ∈ state.buffers := by simp [isSplit]
  refine ⟨selects, ?_, rfl, following.biggest, ?_, following.events, ?_⟩
  · exact GetBuffers.selected_of_selectEntry following.conserving (.inl new) selects
  · exact following.keys_of_mem (List.mem_map_of_mem inMap)
  · exact arraysRight_load changed (following.events packet.tick entry inMap)

/-- The packet is the first of its tick, which gets an entry. -/
theorem select_new {state : State}
    (following : Following traffic stream seen (packet :: rest) state)
    (new : packet.tick ≠ state.prevTick) (missing : state.buffers.lookup packet.tick = none) :
    ∃ selected, GetBuffers.selectEntry setting state packet.tick = .ok selected ∧
      Standing traffic stream seen (packet :: rest) packet.tick
        { selected with prevTick := packet.tick } ∧
      selected.fifo.reader = state.fifo.reader ∧ selected.packetBuffer = state.packetBuffer := by
  have tickIn := (Traffic.mem_packets.mp (member_stream arrives split)).1
  have changed : session seen packet.tick = [] := by
    rw [following.prevTick] at new
    exact session_eq_nil new
  have absent : packet.tick ∉ state.buffers.map Prod.fst := by
    intro member
    rcases List.mem_map.mp member with ⟨pair, inMap, isTick⟩
    have different := List.lookup_eq_none_iff.mp missing pair inMap
    simp [isTick] at different
  have unseen : ∀ one ∈ seen, one.tick ≠ packet.tick := fun one inSeen isTick =>
    absent ((following.keys _).mpr ⟨⟨one, inSeen, isTick⟩, not_done arrives split⟩)
  obtain ⟨entry, free, created, outside, opens⟩ :=
    openTick_ok traffic following.conserving.owned packet.tick
  have selects : GetBuffers.selectEntry setting state packet.tick =
      .ok (GetBuffers.load (withTick setting state packet.tick entry free created) entry) := by
    rw [GetBuffers.selectEntry, if_pos new, missing]
    exact opens
  have events := withTick_filled arrives split following unseen outside free created
  refine ⟨_, selects, ⟨?_, rfl, ?_, ?_, events, ?_⟩, rfl, rfl⟩
  · exact GetBuffers.selected_of_selectEntry following.conserving (.inl new) selects
  · show (if packet.tick > state.biggestTick then packet.tick else state.biggestTick) ∈ _
    split
    · exact List.mem_cons_of_mem _ tickIn
    · exact following.biggest
  · intro other
    show other ∈ packet.tick :: state.buffers.map Prod.fst ↔ _
    rw [List.mem_cons, following.keys other]
  · exact arraysRight_load changed (events packet.tick entry List.mem_cons_self)

/-- The entry for the next packet is found or made. -/
theorem select_standing {state : State}
    (following : Following traffic stream seen (packet :: rest) state) :
    ∃ selected, GetBuffers.selectEntry setting state packet.tick = .ok selected ∧
      Standing traffic stream seen (packet :: rest) packet.tick
        { selected with prevTick := packet.tick } ∧
      selected.fifo.reader = state.fifo.reader ∧ selected.packetBuffer = state.packetBuffer := by
  by_cases same : packet.tick = state.prevTick
  · rcases select_same arrives split following same with ⟨selects, standing⟩
    exact ⟨state, selects, standing, rfl, rfl⟩
  · cases found : state.buffers.lookup packet.tick with
    | some entry =>
        rcases select_found following same found with ⟨selects, standing⟩
        exact ⟨_, selects, standing, rfl, rfl⟩
    | none => exact select_new arrives split following same found

end Round

/-! ### Writing the packet -/

/-- What writing a packet makes of its event. -/
def Event.stored (event : Event) (packet : Packet) (total : UInt64) (control : Nat → Int32) :
    Event where
  data := event.data.write packet.offset.toNat packet.payload
  length := total
  control := control

/-- The state with a packet written. -/
def withPacket (state : State) (cache : Cache) (packet : Packet) (index : Nat) : State :=
  let event := state.fifo.bufs state.entry index
  let total := cache.bytesWritten index + UInt64.ofNat packet.payload.length
  let count := ((cache.packetCnts index).toInt64 + 1).toInt32
  { state with
    fifo := ((state.fifo.copyData event packet.offset.toNat packet.payload).setLength event
      total).setControl event (Function.update (cache.controls index) 5 count)
    cache := some { cache with
      packetCnts := Function.update cache.packetCnts index count
      bytesWritten := Function.update cache.bytesWritten index total }
    log := state.log ++ [.write .payload event state.mapped, .write .length event state.mapped,
      .write .control event state.mapped] }

theorem writes_events (fifo : Fifo) (id : EventId) (packet : Packet) (total : UInt64)
    (control : Nat → Int32) :
    (((fifo.copyData id packet.offset.toNat packet.payload).setLength id total).setControl id
        control).events =
      Function.update fifo.events id ((fifo.events id).stored packet total control) := by
  simp only [Fifo.copyData, Fifo.setLength, Fifo.setControl, Fifo.modify, Function.update_self,
    Function.update_idem, Event.stored]

theorem flagEvent_events (state : State) (id : EventId) :
    (GetBuffers.flagEvent state id).fifo.events = Function.update state.fifo.events id
      { state.fifo.events id with
        control := Function.update (state.fifo.events id).control 1 1 } := rfl

/-- A packet with room for it is written to the event in the arrays. -/
theorem writePacket_eq {state : State} {cache : Cache} (isCache : state.cache = some cache)
    {index : Nat} (own : cache.events index = state.fifo.bufs state.entry index)
    {packet : Packet}
    (room : packet.offset.toNat + packet.payload.length ≤ setting.opened.bufSize.toNat)
    (held : state.packetBuffer.read reHeaderBytes packet.payload.length = packet.payload) :
    GetBuffers.writePacket setting state index (Complete.fields packet)
        (reHeaderBytes + packet.payload.length) =
      some (withPacket state cache packet index,
        cache.bytesWritten index + UInt64.ofNat packet.payload.length,
        state.fifo.bufs state.entry index) := by
  have inside : ¬ (reHeaderBytes + packet.payload.length < reHeaderBytes ∨
      packet.offset.toNat + packet.payload.length > setting.opened.bufSize.toNat) := by
    omega
  unfold GetBuffers.writePacket
  rw [isCache]
  simp only [Complete.fields, Nat.add_sub_cancel_left, if_neg inside, held, own]
  rfl

section Write

variable {seen rest : List Packet} {packet : Packet}

/-- The bytes of the packet's source with the packet. -/
theorem ArraysRight.total {cache : Cache}
    (right : ArraysRight traffic stream seen (packet :: rest) packet.tick cache) {index : Nat}
    (declared : traffic.sources[index]? = some packet.dataId) :
    cache.bytesWritten index + UInt64.ofNat packet.payload.length =
      UInt64.ofNat (weight ((part (session (seen ++ [packet]) packet.tick) packet.tick
        packet.dataId).map Packet.piece)) := by
  rw [session_append, part_append, List.map_append, weight_append, part_single_self,
    UInt64.ofNat_add, (right index packet.dataId declared).1]
  simp [Packet.piece]

/-- The flag of the packet's source is not set. -/
theorem ArraysRight.unflagged {cache : Cache}
    (right : ArraysRight traffic stream seen (packet :: rest) packet.tick cache) {index : Nat}
    (declared : traffic.sources[index]? = some packet.dataId) : cache.controls index 1 = 0 :=
  not_ne_iff.mp fun flagged => not_finished_cons ((right index packet.dataId declared).2 flagged)

/-- The arrays after a packet was written. -/
theorem ArraysRight.write {cache : Cache}
    (right : ArraysRight traffic stream seen (packet :: rest) packet.tick cache) {index : Nat}
    (declared : traffic.sources[index]? = some packet.dataId) (counts : Nat → Int32) :
    ArraysRight traffic stream (seen ++ [packet]) rest packet.tick
      { cache with
        packetCnts := counts
        bytesWritten := Function.update cache.bytesWritten index
          (cache.bytesWritten index + UInt64.ofNat packet.payload.length) } := by
  intro other source isSource
  rcases right other source isSource with ⟨bytes, flag⟩
  refine ⟨?_, fun flagged => (flag flagged).tail⟩
  by_cases same : other = index
  · subst same
    rcases Option.some.inj (isSource.symm.trans declared) with rfl
    show Function.update _ _ _ _ = _
    rw [Function.update_self]
    exact right.total declared
  · have foreign : ¬ (packet.tick = packet.tick ∧ packet.dataId = source) := by
      intro both
      obtain ⟨-, rfl⟩ := both
      exact same (Traffic.index_unique isSource declared)
    show Function.update _ _ _ _ = _
    rw [Function.update_of_ne same, bytes, session_append, part_append,
      part_single_other foreign, List.append_nil]

/-- The event of the packet after the packet was written. -/
theorem Filled.write {event : Event}
    (filled : Filled traffic stream seen (packet :: rest) packet.tick packet.dataId event)
    {total : UInt64} {control : Nat → Int32}
    (flag : control 1 ≠ 0 ↔ Finished stream rest packet.tick packet.dataId)
    (length : Finished stream rest packet.tick packet.dataId →
      total.toNat = (traffic.sent packet.tick packet.dataId).payload.length) :
    Filled traffic stream (seen ++ [packet]) rest packet.tick packet.dataId
      (event.stored packet total control) where
  data := by
    rcases filled.data with ⟨initial, isData⟩
    refine ⟨initial, ?_⟩
    rw [part_append, part_single_self, List.map_append, paste_append, ← isData]
    rfl
  flag := decide_eq_true_iff.trans flag
  length := length

/-- The event of the packet. -/
theorem Standing.event {state : State}
    (standing : Standing traffic stream seen (packet :: rest) packet.tick state) {index : Nat}
    (declared : traffic.sources[index]? = some packet.dataId) :
    Filled traffic stream seen (packet :: rest) packet.tick packet.dataId
      (state.fifo.events (state.fifo.bufs state.entry index)) := by
  have inMap := standing.selected.inMap
  rw [standing.prevTick] at inMap
  exact standing.events packet.tick state.entry inMap index packet.dataId declared

/-- One event of the selected entry changes with a packet, and all others stay
as they are. -/
theorem Standing.update {before after : State}
    (standing : Standing traffic stream seen (packet :: rest) packet.tick before) {index : Nat}
    (declared : traffic.sources[index]? = some packet.dataId)
    (selected : GetBuffers.Selected after) (prevTick : after.prevTick = before.prevTick)
    (biggest : after.biggestTick = before.biggestTick) (buffers : after.buffers = before.buffers)
    (fill : after.fifo.fill = before.fifo.fill) {changed : Event}
    (events : after.fifo.events =
      Function.update before.fifo.events (before.fifo.bufs before.entry index) changed)
    (filled : Filled traffic stream (seen ++ [packet]) rest packet.tick packet.dataId changed)
    (arrays : ∃ cache, after.cache = some cache ∧
      ArraysRight traffic stream (seen ++ [packet]) rest packet.tick cache) :
    Standing traffic stream (seen ++ [packet]) rest packet.tick after where
  selected := selected
  prevTick := prevTick.trans standing.prevTick
  biggest := by
    rw [biggest]
    exact standing.biggest
  keys := by
    intro other
    rw [buffers, standing.keys other]
    by_cases same : other = packet.tick
    · exact iff_of_true (.inl same) (.inl same)
    · have later :
          (∃ one ∈ seen ++ [packet], one.tick = other) ↔ ∃ one ∈ seen, one.tick = other := by
        simp [Ne.symm same]
      rw [done_cons_iff (Ne.symm same), later]
  events := by
    intro tick entry inMap place source isSource
    rw [buffers] at inMap
    have inOwn := standing.selected.inMap
    rw [standing.prevTick] at inOwn
    have sameBufs : after.fifo.bufs entry place = before.fifo.bufs entry place := by
      rw [Fifo.bufs, fill, Fifo.bufs]
    rw [sameBufs, events]
    by_cases own : before.fifo.bufs entry place = before.fifo.bufs before.entry index
    · -- different entries in the map have different events
      rcases Prod.mk.inj own with ⟨sameFill, rfl⟩
      have samePair := List.inj_on_of_nodup_map standing.selected.owned.fills inMap inOwn sameFill
      rcases Prod.mk.inj samePair with ⟨rfl, -⟩
      rcases Option.some.inj (isSource.symm.trans declared) with rfl
      rw [own, Function.update_self]
      exact filled
    · rw [Function.update_of_ne own]
      apply (standing.events tick entry inMap place source isSource).other
      intro both
      obtain ⟨rfl, rfl⟩ := both
      apply own
      rw [standing.selected.owned.unique inMap inOwn, Traffic.index_unique isSource declared]
  arrays := arrays

/-- After a packet that is not the last one of a contiguous part. -/
theorem withPacket_standing {state : State}
    (standing : Standing traffic stream seen (packet :: rest) packet.tick state)
    {cache : Cache} (right : ArraysRight traffic stream seen (packet :: rest) packet.tick cache)
    {index : Nat} (declared : traffic.sources[index]? = some packet.dataId)
    (selected : GetBuffers.Selected (withPacket state cache packet index))
    (unfinished : ¬ Finished stream rest packet.tick packet.dataId) :
    Standing traffic stream (seen ++ [packet]) rest packet.tick
      (withPacket state cache packet index) := by
  refine standing.update declared selected rfl rfl rfl rfl (writes_events _ _ _ _ _) ?_
    ⟨_, rfl, right.write declared _⟩
  refine (standing.event declared).write (iff_of_false ?_ unfinished)
    fun finished => absurd finished unfinished
  simpa using right.unflagged declared

/-- The packets since the last change are packets of the stream. -/
theorem session_sublist (split : stream = seen ++ packet :: rest) :
    (session (seen ++ [packet]) packet.tick).Sublist stream := by
  have cut : stream = seen ++ [packet] ++ rest := by simp [split]
  rw [cut]
  exact (stretch_suffix _ _).sublist.trans (List.sublist_append_left _ _)

end Write

section Round

variable {seen rest : List Packet} {packet : Packet}
variable (arrives : stream.Perm traffic.packets) (split : stream = seen ++ packet :: rest)

include arrives split

/-- The counted bytes do not overflow. -/
theorem toNat_counted :
    (UInt64.ofNat (weight ((part (session (seen ++ [packet]) packet.tick) packet.tick
      packet.dataId).map Packet.piece))).toNat =
    weight ((part (session (seen ++ [packet]) packet.tick) packet.tick
      packet.dataId).map Packet.piece) := by
  have light := weight_part_le arrives (session_sublist split) packet.tick packet.dataId
  have short : (traffic.sent packet.tick packet.dataId).payload.length < 2 ^ 32 :=
    (traffic.sent packet.tick packet.dataId).short
  apply UInt64.toNat_ofNat_of_lt'
  calc weight ((part (session (seen ++ [packet]) packet.tick) packet.tick
          packet.dataId).map Packet.piece)
      ≤ (traffic.sent packet.tick packet.dataId).payload.length := light
    _ < 2 ^ 32 := short
    _ ≤ UInt64.size := by decide

/-- A packet of a declared source is written to its event. -/
theorem writePacket_ok {state : State}
    (standing : Standing traffic stream seen (packet :: rest) packet.tick state)
    (held : state.packetBuffer.read reHeaderBytes packet.payload.length = packet.payload)
    (index : Nat) {cache : Cache} (isCache : state.cache = some cache) :
    GetBuffers.writePacket setting state index (Complete.fields packet)
        (reHeaderBytes + packet.payload.length) =
      some (withPacket state cache packet index,
        cache.bytesWritten index + UInt64.ofNat packet.payload.length,
        state.fifo.bufs state.entry index) := by
  rcases Traffic.mem_packets.mp (member_stream arrives split) with ⟨tickIn, sourceIn, member⟩
  rcases standing.selected.holds with ⟨-, used, isUsed, events⟩
  have own : cache.events index = state.fifo.bufs state.entry index := by
    rw [Option.some.inj (isCache.symm.trans isUsed), events]
  have room := (Transmission.mem_end_le member).trans (traffic.room _ tickIn _ sourceIn)
  exact writePacket_eq isCache own room held

/-- The total reaches the announced length with the last packet of a contiguous
part. -/
theorem total_ge_iff {cache : Cache}
    (right : ArraysRight traffic stream seen (packet :: rest) packet.tick cache) {index : Nat}
    (declared : traffic.sources[index]? = some packet.dataId) :
    (cache.bytesWritten index + UInt64.ofNat packet.payload.length).toNat ≥ packet.length.toNat ↔
      Finished stream rest packet.tick packet.dataId := by
  have member := (Traffic.mem_packets.mp (member_stream arrives split)).2.2
  rw [right.total declared, toNat_counted arrives split, Transmission.mem_length member]
  exact le_weight_session_iff arrives split

/-- The event of a finished part has the length of its payload. -/
theorem total_eq {cache : Cache}
    (right : ArraysRight traffic stream seen (packet :: rest) packet.tick cache) {index : Nat}
    (declared : traffic.sources[index]? = some packet.dataId)
    (finished : Finished stream rest packet.tick packet.dataId) :
    (cache.bytesWritten index + UInt64.ofNat packet.payload.length).toNat =
      (traffic.sent packet.tick packet.dataId).payload.length := by
  rw [right.total declared, toNat_counted arrives split]
  apply Nat.le_antisymm
  · exact weight_part_le arrives (session_sublist split) packet.tick packet.dataId
  · exact (le_weight_session_iff arrives split).mpr finished

/-- After the last packet of a contiguous part, with the event flagged. -/
theorem flagEvent_standing {state : State}
    (standing : Standing traffic stream seen (packet :: rest) packet.tick state)
    {cache : Cache} (right : ArraysRight traffic stream seen (packet :: rest) packet.tick cache)
    {index : Nat} (declared : traffic.sources[index]? = some packet.dataId)
    (selected : GetBuffers.Selected (withPacket state cache packet index))
    (inside : (state.fifo.bufs state.entry index).1 ∈ (withPacket state cache packet index).mapped)
    (finished : Finished stream rest packet.tick packet.dataId) :
    Standing traffic stream (seen ++ [packet]) rest packet.tick
      (GetBuffers.flagEvent (withPacket state cache packet index)
        (state.fifo.bufs state.entry index)) := by
  have flagged : GetBuffers.Selected (GetBuffers.flagEvent (withPacket state cache packet index)
      (state.fifo.bufs state.entry index)) :=
    ⟨GetBuffers.flagEvent_owned selected.owned inside, selected.inMap, selected.holds⟩
  have events : (GetBuffers.flagEvent (withPacket state cache packet index)
      (state.fifo.bufs state.entry index)).fifo.events = _ :=
    (flagEvent_events _ _).trans (by rw [withPacket, writes_events, Function.update_idem])
  refine standing.update declared flagged rfl rfl rfl rfl events ?_
    ⟨_, rfl, right.write declared _⟩
  rw [Function.update_self]
  refine (standing.event declared).write (iff_of_true ?_ finished)
    fun finished => total_eq arrives split right declared finished
  simp

end Round

end Dift.Et
