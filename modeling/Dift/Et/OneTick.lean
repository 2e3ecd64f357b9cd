import Dift.Et.Interleaving

/-!
Owns the reassembly of one tick by `getBuffers`, from any state in which no
tick is in the map. `Building` says what the entry of the tick, its events and
the arrays hold after some of the packets, in whatever order they came: it
depends on the packets only through the pieces and the number of them that each
source has got. So the entry is put with the last packet, and it is the same
entry for all orders. Packets are counted in a control word of 32 bits.
-/

namespace Dift.Et

open Dift.Foundation
open Dift.Wire
open Dift.Assemble

/-! ### What is sent -/

/-- Of different values only one is a given one. -/
theorem flatMap_ite_eq {α β : Type*} [DecidableEq α] {values : List α} (nodup : values.Nodup)
    {value : α} (member : value ∈ values) (items : List β) :
    (values.flatMap fun other => if other = value then items else []) = items := by
  induction values with
  | nil => cases member
  | cons first rest inductionHypothesis =>
      obtain ⟨fresh, restNodup⟩ := List.nodup_cons.mp nodup
      rw [List.flatMap_cons]
      rcases List.mem_cons.mp member with rfl | later
      · have othersNil : (rest.flatMap fun other => if other = value then items else []) = [] := by
          rw [List.flatMap_eq_nil_iff]
          intro other inRest
          apply if_neg
          rintro rfl
          exact fresh inRest
        rw [if_pos rfl, othersNil, List.append_nil]
      · have different : first ≠ value := fun same => fresh (same ▸ later)
        rw [if_neg different, List.nil_append, inductionHypothesis restNodup later]

/-- One payload cut into chunks. Only an empty payload has an empty chunk, and
then no other one. -/
structure Sending where
  version : Int
  reserved : Int
  chunks : List (List UInt8)
  versionNonneg : 0 ≤ version
  versionLt : version < 16
  hasChunks : chunks ≠ []
  cut : chunks = [[]] ∨ ∀ chunk ∈ chunks, chunk ≠ []
  short : chunks.flatten.length < 2 ^ 32

namespace Sending

variable (sending : Sending) (tick : UInt64) (dataId : UInt16)

def payload : List UInt8 := sending.chunks.flatten

/-- The packet that carries one placed chunk. -/
def packet (piece : Placed UInt8) : Packet where
  version := sending.version
  reserved := sending.reserved
  tick := tick
  dataId := dataId
  offset := UInt32.ofNat piece.offset
  length := UInt32.ofNat sending.payload.length
  payload := piece.block

def packets : List Packet :=
  (layout 0 sending.chunks).map (sending.packet tick dataId)

variable {sending}

theorem piece_packet (tick : UInt64) (dataId : UInt16) {piece : Placed UInt8}
    (member : piece ∈ layout 0 sending.chunks) :
    (sending.packet tick dataId piece).piece = piece := by
  have ends := mem_layout_end_le member
  have short := sending.short
  have below : piece.offset < 2 ^ 32 := by omega
  simp [packet, Packet.piece, UInt32.toNat_ofNat_of_lt' below]

theorem map_piece_packets (sending : Sending) (tick : UInt64) (dataId : UInt16) :
    (sending.packets tick dataId).map Packet.piece = layout 0 sending.chunks := by
  rw [packets, List.map_map]
  conv_rhs => rw [← List.map_id (layout 0 sending.chunks)]
  exact List.map_congr_left fun piece member => piece_packet tick dataId member

variable {tick dataId}

theorem packets_length (sending : Sending) (tick : UInt64) (dataId : UInt16) :
    (sending.packets tick dataId).length = sending.chunks.length := by
  rw [packets, List.length_map, layout_length]

theorem packets_ne_nil : sending.packets tick dataId ≠ [] := by
  have nonempty := sending.hasChunks
  rw [packets]
  cases chunks : sending.chunks with
  | nil => exact absurd chunks nonempty
  | cons chunk rest => simp [layout]

/-- What a packet of the sending says and carries. -/
theorem mem_packets {packet : Packet} (member : packet ∈ sending.packets tick dataId) :
    packet.tick = tick ∧ packet.dataId = dataId ∧
      packet.length.toNat = sending.payload.length ∧
      packet.offset.toNat + packet.payload.length ≤ sending.payload.length ∧
      packet.payload ∈ sending.chunks ∧ 0 ≤ packet.version ∧ packet.version < 16 := by
  obtain ⟨piece, placed, rfl⟩ := List.mem_map.mp member
  have ends := mem_layout_end_le placed
  have isPiece := congrArg Placed.offset (piece_packet tick dataId placed)
  refine ⟨rfl, rfl, UInt32.toNat_ofNat_of_lt' sending.short, ?_, mem_layout_block placed,
    sending.versionNonneg, sending.versionLt⟩
  rw [Nat.zero_add] at ends
  change (sending.packet tick dataId piece).offset.toNat = piece.offset at isPiece
  rw [isPiece]
  exact ends

end Sending

/-- Payloads for all declared sources of one tick, and an ET system that has
room for them and does not fail. -/
structure OneTick (setting : Setting) where
  tick : UInt64
  sources : List UInt16
  sent : UInt16 → Sending
  hasSources : sources ≠ []
  declared : setting.opened.bufIds = sources.map fun source => (source.toNat : Int)
  nodup : sources.Nodup
  jumbo : ∀ source ∈ sources, ∀ chunk ∈ (sent source).chunks,
    reHeaderBytes + chunk.length ≤ packetBufSize
  room : ∀ source ∈ sources, (sent source).payload.length ≤ setting.opened.bufSize.toNat
  memory : ∀ count, setting.opened.noMemory count = false
  accepts : ∀ count, setting.opened.refusal count = none

namespace OneTick

variable {setting : Setting} (job : OneTick setting)

def packetsOf (source : UInt16) : List Packet :=
  (job.sent source).packets job.tick source

/-- All packets of all sources. -/
def packets : List Packet :=
  job.sources.flatMap job.packetsOf

variable {job}

theorem mem_packetsOf {source : UInt16} {packet : Packet} (member : packet ∈ job.packetsOf source) :
    packet.tick = job.tick ∧ packet.dataId = source := by
  obtain ⟨isTick, isSource, -⟩ := Sending.mem_packets member
  exact ⟨isTick, isSource⟩

theorem mem_packets {packet : Packet} (member : packet ∈ job.packets) :
    packet.tick = job.tick ∧ packet.dataId ∈ job.sources ∧
      packet ∈ job.packetsOf packet.dataId := by
  obtain ⟨source, sourceIn, inPackets⟩ := List.mem_flatMap.mp member
  obtain ⟨isTick, rfl⟩ := mem_packetsOf inPackets
  exact ⟨isTick, sourceIn, inPackets⟩

theorem proper {packet : Packet} (member : packet ∈ job.packets) : Proper packet := by
  obtain ⟨-, sourceIn, inPackets⟩ := mem_packets member
  obtain ⟨-, -, -, -, chunk, versionNonneg, versionLt⟩ := Sending.mem_packets inPackets
  exact ⟨versionNonneg, versionLt, job.jumbo _ sourceIn _ chunk⟩

/-- A source has one index. -/
theorem index_unique {source : UInt16} {first second : Nat}
    (one : job.sources[first]? = .some source) (other : job.sources[second]? = .some source) :
    first = second := by
  obtain ⟨inside, -⟩ := List.getElem?_eq_some_iff.mp one
  exact (List.getElem?_inj inside job.nodup).mp (one.trans other.symm)

/-- The index of a declared source. -/
theorem exists_index {source : UInt16} (member : source ∈ job.sources) :
    ∃ index, bufIdReverseMap setting.opened.bufIds source.toNat = .some index ∧
      job.sources[index]? = .some source := by
  rw [job.declared]
  exact exists_declaredIndex member

/-- Among all packets, those of a source are the ones it was cut into. -/
theorem part_packets {source : UInt16} (member : source ∈ job.sources) :
    part job.packets job.tick source = job.packetsOf source := by
  have own (other : UInt16) : part (job.packetsOf other) job.tick source =
      if other = source then job.packetsOf source else [] := by
    split
    case isTrue same =>
      subst same
      exact List.filter_eq_self.mpr fun packet inPackets => by
        simp [mem_packetsOf inPackets]
    case isFalse different =>
      exact List.filter_eq_nil_iff.mpr fun packet inPackets => by
        simp [mem_packetsOf inPackets, different]
  rw [packets, part, List.filter_flatMap]
  change job.sources.flatMap (fun other => part (job.packetsOf other) job.tick source) = _
  simp only [own]
  exact flatMap_ite_eq job.nodup member _

/-! ### Counting -/

section Stream

variable {stream : List Packet} (arrives : stream.Perm job.packets)

include arrives

/-- The packets of a source that came and those to come are all of its packets. -/
theorem parts_perm {seen rest : List Packet} (split : stream = seen ++ rest) {source : UInt16}
    (sourceIn : source ∈ job.sources) :
    (part seen job.tick source ++ part rest job.tick source).Perm (job.packetsOf source) := by
  rw [← part_append, ← split, ← part_packets sourceIn]
  exact arrives.filter _

theorem weight_parts {seen rest : List Packet} (split : stream = seen ++ rest) {source : UInt16}
    (sourceIn : source ∈ job.sources) :
    weight ((part seen job.tick source).map Packet.piece) +
        weight ((part rest job.tick source).map Packet.piece) =
      (job.sent source).payload.length := by
  have pieces := (parts_perm arrives split sourceIn).map Packet.piece
  rw [packetsOf, Sending.map_piece_packets, List.map_append] at pieces
  rw [← weight_append, weight_perm pieces, weight_layout]
  rfl

/-- The next packet of a run is one of the job. -/
theorem mem_of_split {seen rest : List Packet} {packet : Packet}
    (split : stream = seen ++ packet :: rest) :
    packet.tick = job.tick ∧ packet.dataId ∈ job.sources ∧
      packet ∈ job.packetsOf packet.dataId :=
  mem_packets (arrives.subset (by simp [split]))

/-- The bytes of a source reach the announced length with its last packet. -/
theorem le_weight_iff {seen rest : List Packet} {packet : Packet}
    (split : stream = seen ++ packet :: rest) :
    (job.sent packet.dataId).payload.length ≤
        weight ((part (seen ++ [packet]) job.tick packet.dataId).map Packet.piece) ↔
      part rest job.tick packet.dataId = [] := by
  obtain ⟨isTick, sourceIn, inPackets⟩ := mem_of_split arrives split
  have cut : stream = seen ++ [packet] ++ rest := by simp [split]
  have total := weight_parts arrives cut sourceIn
  have all := parts_perm arrives cut sourceIn
  constructor
  · intro heavy
    rcases (job.sent packet.dataId).cut with one | nonempty
    · -- an empty payload is one packet, which is the one that came
      have size := all.length_eq
      rw [packetsOf, Sending.packets_length, one, List.length_append, part_append,
        List.length_append, ← isTick, part_single_self] at size
      rw [← isTick]
      exact List.length_eq_zero_iff.mp (by simp at size; omega)
    · by_contra later
      have blocks : ∀ piece ∈ (part rest job.tick packet.dataId).map Packet.piece,
          piece.block ≠ [] := by
        intro piece inPieces
        obtain ⟨one, isLater, rfl⟩ := List.mem_map.mp inPieces
        have inPackets := all.subset (List.mem_append_right _ isLater)
        exact nonempty _ (Sending.mem_packets inPackets).2.2.2.2.1
      have count := length_le_weight blocks
      have positive := List.length_pos_iff.mpr later
      rw [List.length_map] at count
      omega
  · intro nothing
    rw [nothing, List.map_nil, weight_nil, Nat.add_zero] at total
    exact total.ge

/-- Every source is finished when no packet is to come. -/
theorem rest_eq_nil_iff {seen rest : List Packet} (split : stream = seen ++ rest) :
    rest = [] ↔ ∀ source ∈ job.sources, part rest job.tick source = [] := by
  constructor
  · rintro rfl source _
    rfl
  · intro finished
    rw [List.eq_nil_iff_forall_not_mem]
    intro packet member
    have inStream : packet ∈ stream := by simp [split, member]
    obtain ⟨isTick, sourceIn, -⟩ := mem_packets (arrives.subset inStream)
    have inPart : packet ∈ part rest job.tick packet.dataId :=
      mem_part.mpr ⟨member, isTick, rfl⟩
    rw [finished _ sourceIn] at inPart
    cases inPart

end Stream

/-! ### The state while the tick is built -/

variable (job)

/-- What the event of a source holds after some packets, before others. -/
structure Partial (id : EventId) (source : UInt16) (seen rest : List Packet) (held : Event) :
    Prop where
  data : held.data = paste (setting.opened.freshData id)
    ((part seen job.tick source).map Packet.piece)
  length : held.length =
    UInt64.ofNat (weight ((part seen job.tick source).map Packet.piece))
  unfinished : part rest job.tick source ≠ [] → held.control 1 = 0
  finished : part rest job.tick source = [] → held.control =
    Function.update (Function.update (setting.opened.fresh id).control 5
      (Int32.ofNat (part seen job.tick source).length)) 1 1

/-- What the arrays hold for a source: its event, its packets and bytes, and
the control words as they were at first. -/
structure Cached (id : EventId) (source : UInt16) (seen : List Packet) (cache : Cache)
    (index : Nat) : Prop where
  event : cache.events index = id
  packetCnts : cache.packetCnts index = Int32.ofNat (part seen job.tick source).length
  bytesWritten : cache.bytesWritten index =
    UInt64.ofNat (weight ((part seen job.tick source).map Packet.piece))
  controls : cache.controls index = (setting.opened.fresh id).control

/-- The state with the tick being built, which began in a state without any. -/
structure Building (begun : State) (seen rest : List Packet) (state : State) : Prop where
  buffers : state.buffers = [(job.tick, state.entry)]
  prevTick : state.prevTick = job.tick
  young : GetBuffers.isOld setting state.biggestTick job.tick = false
  call : state.fifo.fill state.entry = begun.fifo.filled
  reader : state.fifo.reader = begun.fifo.reader
  events : ∀ index source, job.sources[index]? = .some source →
    job.Partial (begun.fifo.filled, index) source seen rest
      (state.fifo.events (begun.fifo.filled, index))
  arrays : ∃ cache, state.cache = .some cache ∧
    ∀ index source, job.sources[index]? = .some source →
      job.Cached (begun.fifo.filled, index) source seen cache index

/-- The event that a source ends with. -/
def event (call index : Nat) (source : UInt16) : Event where
  data := Memory.write (setting.opened.freshData (call, index)) 0 (job.sent source).payload
  length := UInt64.ofNat (job.sent source).payload.length
  control := Function.update (Function.update (setting.opened.fresh (call, index)).control 5
    (Int32.ofNat (job.packetsOf source).length)) 1 1

/-- The entry of the tick, which was filled by some call. -/
def entry (call : Nat) : List Event :=
  job.sources.mapIdx fun index source => job.event call index source

variable {job}

/-- With no more packets to come, an event is the one its source ends with. -/
theorem Partial.eq_event {stream : List Packet} (arrives : stream.Perm job.packets)
    {call index : Nat} {source : UInt16} (sourceIn : source ∈ job.sources) {held : Event}
    (isPartial : job.Partial (call, index) source stream [] held) :
    held = job.event call index source := by
  have all := parts_perm arrives (List.append_nil stream).symm sourceIn
  rw [show part [] job.tick source = [] from rfl, List.append_nil] at all
  have pieces := all.map Packet.piece
  rw [packetsOf, Sending.map_piece_packets] at pieces
  have data := isPartial.data
  have length := isPartial.length
  have control := isPartial.finished rfl
  rw [paste_eq_write _ pieces] at data
  rw [weight_perm pieces, weight_layout] at length
  rw [all.length_eq] at control
  cases held
  simp only at data length control
  rw [data, length, control]
  rfl

/-- A packet of another source changes nothing for an event. -/
theorem Partial.other {id : EventId} {source : UInt16} {seen rest : List Packet}
    {packet : Packet} {held : Event}
    (isPartial : job.Partial id source seen (packet :: rest) held)
    (foreign : ¬ (packet.tick = job.tick ∧ packet.dataId = source)) :
    job.Partial id source (seen ++ [packet]) rest held := by
  have sameSeen : part (seen ++ [packet]) job.tick source = part seen job.tick source := by
    rw [part_append, part_single_other foreign, List.append_nil]
  have sameRest : part (packet :: rest) job.tick source = part rest job.tick source := by
    rw [← List.singleton_append, part_append, part_single_other foreign, List.nil_append]
  obtain ⟨data, length, unfinished, finished⟩ := isPartial
  rw [sameRest] at unfinished finished
  rw [← sameSeen] at data length finished
  exact ⟨data, length, unfinished, finished⟩

theorem Cached.other {id : EventId} {source : UInt16} {seen : List Packet}
    {packet : Packet} {cache : Cache} {index : Nat}
    (cached : job.Cached id source seen cache index)
    (foreign : ¬ (packet.tick = job.tick ∧ packet.dataId = source)) :
    job.Cached id source (seen ++ [packet]) cache index := by
  have sameSeen : part (seen ++ [packet]) job.tick source = part seen job.tick source := by
    rw [part_append, part_single_other foreign, List.append_nil]
  obtain ⟨isEvent, packetCnts, bytesWritten, controls⟩ := cached
  rw [← sameSeen] at packetCnts bytesWritten
  exact ⟨isEvent, packetCnts, bytesWritten, controls⟩

/-! ### Opening the tick -/

theorem fresh_flag (opened : Opened) (id : EventId) : (opened.fresh id).control 1 = 0 := by
  simp [Opened.fresh]

/-- The first packet of the tick, in a state without any tick in the map, opens
an entry with fresh events. -/
theorem selectEntry_building (begun : State) (empty : begun.buffers = [])
    (new : job.tick ≠ begun.prevTick) (nonneg : 0 ≤ setting.tickPrescale)
    (far : (job.tick.toNat : Int) + 4 * setting.tickPrescale < 2 ^ 64)
    (close : (begun.biggestTick.toNat : Int) ≤ job.tick.toNat + 4 * setting.tickPrescale)
    {stream : List Packet} (arrives : stream.Perm job.packets) :
    ∃ selected, GetBuffers.selectEntry setting begun job.tick = .ok selected ∧
      job.Building begun [] stream { selected with prevTick := job.tick } ∧
      selected.packetBuffer = begun.packetBuffer := by
  obtain ⟨entry, free, created, taken⟩ := takeEntry_ok job.memory begun
  have opens := openTick_eq job.accepts job.tick taken
  have isFresh (index : Nat) :
      (withTick setting begun job.tick entry free created).fifo.events
        (begun.fifo.filled, index) = setting.opened.fresh (begun.fifo.filled, index) :=
    if_pos rfl
  refine ⟨GetBuffers.load (withTick setting begun job.tick entry free created) entry, ?_,
    ⟨?_, rfl, ?_, Function.update_self _ _ _, rfl, ?_, ⟨_, rfl, ?_⟩⟩, rfl⟩
  · rw [GetBuffers.selectEntry, if_pos new, empty]
    exact opens
  · show (job.tick, entry) :: begun.buffers = _
    rw [empty]
    rfl
  · show GetBuffers.isOld setting
      (if job.tick > begun.biggestTick then job.tick else begun.biggestTick) job.tick = false
    apply isOld_eq_false nonneg far
    split
    · omega
    · exact close
  · intro index source declared
    have waits : part stream job.tick source ≠ [] := by
      have all := parts_perm arrives (List.nil_append stream).symm
        (List.mem_of_getElem? declared)
      intro nothing
      rw [nothing] at all
      exact Sending.packets_ne_nil all.symm.eq_nil
    show job.Partial _ source [] stream ((withTick setting begun job.tick entry free
      created).fifo.events (begun.fifo.filled, index))
    rw [isFresh]
    exact ⟨rfl, rfl, fun _ => fresh_flag _ _, fun nothing => absurd nothing waits⟩
  · intro index source _
    have own : (withTick setting begun job.tick entry free created).fifo.bufs entry index =
        (begun.fifo.filled, index) :=
      congrArg (·, index) (Function.update_self _ _ _)
    refine ⟨own, rfl, rfl, ?_⟩
    show ((withTick setting begun job.tick entry free created).fifo.events
      ((withTick setting begun job.tick entry free created).fifo.bufs entry index)).control = _
    rw [own, isFresh]

/-! ### Writing a packet -/

theorem count_succ (count : Nat) :
    ((Int32.ofNat count).toInt64 + 1).toInt32 = Int32.ofNat (count + 1) := by
  rw [Int64.toInt32_add, Int32.toInt32_toInt64, Int32.ofNat_add]
  rfl

section Write

variable {begun state : State} {seen rest : List Packet} {packet : Packet}

/-- One event changes with a packet, and all others stay as they are. -/
theorem Building.update {after : State}
    (building : job.Building begun seen (packet :: rest) state) {index : Nat}
    (declared : job.sources[index]? = .some packet.dataId)
    (buffers : after.buffers = state.buffers) (entry : after.entry = state.entry)
    (prevTick : after.prevTick = state.prevTick)
    (biggest : after.biggestTick = state.biggestTick)
    (fill : after.fifo.fill = state.fifo.fill) (reader : after.fifo.reader = state.fifo.reader)
    {changed : Event}
    (events : after.fifo.events =
      Function.update state.fifo.events (begun.fifo.filled, index) changed)
    (isPartial : job.Partial (begun.fifo.filled, index) packet.dataId (seen ++ [packet]) rest
      changed)
    (arrays : ∃ cache, after.cache = .some cache ∧
      ∀ index source, job.sources[index]? = .some source →
        job.Cached (begun.fifo.filled, index) source (seen ++ [packet]) cache index) :
    job.Building begun (seen ++ [packet]) rest after where
  buffers := by rw [buffers, building.buffers, entry]
  prevTick := prevTick.trans building.prevTick
  young := by
    rw [biggest]
    exact building.young
  call := by rw [fill, entry, building.call]
  reader := reader.trans building.reader
  events := by
    intro place source isSource
    rw [events]
    by_cases same : place = index
    · subst same
      obtain rfl := Option.some.inj (isSource.symm.trans declared)
      rw [Function.update_self]
      exact isPartial
    · rw [Function.update_of_ne fun own => same (Prod.mk.inj own).2]
      apply (building.events place source isSource).other
      intro both
      obtain ⟨-, rfl⟩ := both
      exact same (index_unique isSource declared)
  arrays := arrays

/-- The arrays after a packet was written. -/
theorem Cached.write {cache : Cache}
    (cached : ∀ index source, job.sources[index]? = .some source →
      job.Cached (begun.fifo.filled, index) source seen cache index)
    (isTick : packet.tick = job.tick) {index : Nat}
    (declared : job.sources[index]? = .some packet.dataId) :
    ∀ place source, job.sources[place]? = .some source →
      job.Cached (begun.fifo.filled, place) source (seen ++ [packet]) { cache with
        packetCnts := Function.update cache.packetCnts index
          ((cache.packetCnts index).toInt64 + 1).toInt32
        bytesWritten := Function.update cache.bytesWritten index
          (cache.bytesWritten index + UInt64.ofNat packet.payload.length) } place := by
  intro place source isSource
  by_cases same : place = index
  · subst same
    obtain rfl := Option.some.inj (isSource.symm.trans declared)
    obtain ⟨isEvent, packetCnts, bytesWritten, controls⟩ := cached place _ isSource
    refine ⟨isEvent, ?_, ?_, controls⟩
    · show Function.update _ _ _ _ = _
      rw [Function.update_self, packetCnts, count_succ, part_append, ← isTick, part_single_self,
        List.length_append, List.length_singleton]
    · show Function.update _ _ _ _ = _
      rw [Function.update_self, bytesWritten, part_append, ← isTick, part_single_self,
        List.map_append, weight_append, UInt64.ofNat_add]
      simp [Packet.piece]
  · have foreign : ¬ (packet.tick = job.tick ∧ packet.dataId = source) := by
      intro both
      obtain ⟨-, rfl⟩ := both
      exact same (index_unique isSource declared)
    obtain ⟨isEvent, packetCnts, bytesWritten, controls⟩ := (cached place source isSource).other
      foreign
    refine ⟨isEvent, ?_, ?_, controls⟩
    · show Function.update _ _ _ _ = _
      rw [Function.update_of_ne same, packetCnts]
    · show Function.update _ _ _ _ = _
      rw [Function.update_of_ne same, bytesWritten]

/-- The event of the packet after the packet was written. -/
theorem Partial.write {id : EventId} {held : Event}
    (isPartial : job.Partial id packet.dataId seen (packet :: rest) held)
    (isTick : packet.tick = job.tick) {total : UInt64}
    (isTotal : total =
      UInt64.ofNat (weight ((part (seen ++ [packet]) job.tick packet.dataId).map Packet.piece)))
    {control : Nat → Int32}
    (unfinished : part rest job.tick packet.dataId ≠ [] → control 1 = 0)
    (finished : part rest job.tick packet.dataId = [] → control =
      Function.update (Function.update (setting.opened.fresh id).control 5
        (Int32.ofNat (part (seen ++ [packet]) job.tick packet.dataId).length)) 1 1) :
    job.Partial id packet.dataId (seen ++ [packet]) rest (held.stored packet total control) where
  data := by
    rw [part_append, ← isTick, part_single_self, List.map_append, paste_append, isTick,
      ← isPartial.data]
    rfl
  length := isTotal
  unfinished := unfinished
  finished := finished

theorem Building.bufs (building : job.Building begun seen rest state) (index : Nat) :
    state.fifo.bufs state.entry index = (begun.fifo.filled, index) :=
  congrArg (·, index) building.call

/-- The control words that are written with a packet. -/
theorem Cached.control {id : EventId} {cache : Cache} {index : Nat}
    (cached : job.Cached id packet.dataId seen cache index) (isTick : packet.tick = job.tick) :
    Function.update (cache.controls index) 5 ((cache.packetCnts index).toInt64 + 1).toInt32 =
      Function.update (setting.opened.fresh id).control 5
        (Int32.ofNat (part (seen ++ [packet]) job.tick packet.dataId).length) := by
  rw [cached.controls, cached.packetCnts, count_succ, part_append, ← isTick, part_single_self,
    List.length_append, List.length_singleton]

theorem Cached.total {id : EventId} {cache : Cache} {index : Nat}
    (cached : job.Cached id packet.dataId seen cache index) (isTick : packet.tick = job.tick) :
    cache.bytesWritten index + UInt64.ofNat packet.payload.length =
      UInt64.ofNat (weight ((part (seen ++ [packet]) job.tick packet.dataId).map
        Packet.piece)) := by
  rw [cached.bytesWritten, part_append, ← isTick, part_single_self, List.map_append, weight_append,
    UInt64.ofNat_add]
  simp [Packet.piece]

theorem Building.withPacket_events (building : job.Building begun seen rest state) (cache : Cache)
    (index : Nat) :
    (withPacket state cache packet index).fifo.events =
      Function.update state.fifo.events (begun.fifo.filled, index)
        ((state.fifo.events (begun.fifo.filled, index)).stored packet
          (cache.bytesWritten index + UInt64.ofNat packet.payload.length)
          (Function.update (cache.controls index) 5
            ((cache.packetCnts index).toInt64 + 1).toInt32)) := by
  rw [← building.bufs index]
  exact writes_events _ _ _ _ _

theorem Building.flagEvent_events (building : job.Building begun seen rest state) (cache : Cache)
    (index : Nat) :
    (GetBuffers.flagEvent (withPacket state cache packet index)
        (state.fifo.bufs state.entry index)).fifo.events =
      Function.update state.fifo.events (begun.fifo.filled, index)
        ((state.fifo.events (begun.fifo.filled, index)).stored packet
          (cache.bytesWritten index + UInt64.ofNat packet.payload.length)
          (Function.update (Function.update (cache.controls index) 5
            ((cache.packetCnts index).toInt64 + 1).toInt32) 1 1)) := by
  rw [Dift.Et.flagEvent_events, building.bufs, building.withPacket_events, Function.update_self,
    Function.update_idem]
  rfl

section Cases

variable (building : job.Building begun seen (packet :: rest) state)
variable (isTick : packet.tick = job.tick) {index : Nat}
variable (declared : job.sources[index]? = .some packet.dataId) {cache : Cache}
variable (cached : ∀ index source, job.sources[index]? = .some source →
  job.Cached (begun.fifo.filled, index) source seen cache index)

include building isTick declared cached

/-- After a packet that is not the last one of its source. -/
theorem withPacket_building (later : part rest job.tick packet.dataId ≠ []) :
    job.Building begun (seen ++ [packet]) rest (withPacket state cache packet index) := by
  have own := cached index _ declared
  refine building.update declared rfl rfl rfl rfl rfl rfl (building.withPacket_events cache index)
    ?_ ⟨_, rfl, Cached.write cached isTick declared⟩
  refine (building.events index _ declared).write isTick (own.total isTick) (fun _ => ?_)
    fun nothing => absurd nothing later
  rw [own.control isTick, Function.update_of_ne (by decide)]
  exact fresh_flag _ _

/-- After the last packet of its source, with the event flagged. -/
theorem flagEvent_building (last : part rest job.tick packet.dataId = []) :
    job.Building begun (seen ++ [packet]) rest
      (GetBuffers.flagEvent (withPacket state cache packet index)
        (state.fifo.bufs state.entry index)) := by
  have own := cached index _ declared
  refine building.update declared rfl rfl rfl rfl rfl rfl (building.flagEvent_events cache index)
    ?_ ⟨_, rfl, Cached.write cached isTick declared⟩
  refine (building.events index _ declared).write isTick (own.total isTick)
    (fun later => absurd last later) fun _ => ?_
  rw [own.control isTick]

end Cases

end Write

/-! ### One round -/

theorem contents_eq_map (job : OneTick setting) (fifo : Fifo) (entry : Nat) :
    fifo.contents setting.opened entry =
      (List.range job.sources.length).map fun index => fifo.events (fifo.bufs entry index) := by
  rw [Fifo.contents, Opened.idCount, job.declared, List.length_map]

variable (job) in
/-- The state after a packet: the tick is still being built, or it was put. -/
structure Stepped (begun : State) (seen rest : List Packet) (after : State) : Prop where
  waits : rest ≠ [] → job.Building begun seen rest after
  puts : rest = [] → after.buffers = [] ∧
    after.fifo.reader = begun.fifo.reader ++ [job.entry begun.fifo.filled]

/-- The house cleaning leaves a tick that is being built. -/
theorem Building.clean_eq_self {begun state : State} {seen rest : List Packet}
    (building : job.Building begun seen rest state)
    (event : EventId) :
    GetBuffers.clean setting state event = state := by
  apply GetBuffers.clean_eq_self
  intro tick member
  rw [building.buffers] at member
  obtain rfl := List.mem_singleton.mp member
  exact building.young

section Round

variable {begun state : State} {stream seen rest : List Packet}
variable (arrives : stream.Perm job.packets)

include arrives

/-- The entry is complete when no packet is to come. -/
theorem Building.allHaveData_iff (building : job.Building begun seen rest state)
    (split : stream = seen ++ rest) :
    state.fifo.allHaveData setting.opened state.entry = true ↔ rest = [] := by
  rw [rest_eq_nil_iff arrives split, Fifo.allHaveData, contents_eq_map job, List.all_map,
    List.all_eq_true]
  have flagged (index : Nat) (source : UInt16) (declared : job.sources[index]? = .some source) :
      (state.fifo.events (state.fifo.bufs state.entry index)).hasData = true ↔
        part rest job.tick source = [] := by
    have isPartial := building.events index source declared
    rw [building.bufs, Event.hasData, decide_eq_true_iff]
    constructor
    · intro flag
      by_contra later
      exact flag (isPartial.unfinished later)
    · intro nothing
      rw [isPartial.finished nothing, Function.update_self]
      decide
  constructor
  · intro all source member
    obtain ⟨index, inside, rfl⟩ := List.getElem_of_mem member
    exact (flagged index _ (List.getElem?_eq_getElem inside)).mp
      (all index (List.mem_range.mpr inside))
  · intro finished index member
    have declared := List.getElem?_eq_getElem (List.mem_range.mp member)
    exact (flagged index _ declared).mpr (finished _ (List.mem_of_getElem? declared))

/-- The complete entry. -/
theorem Building.contents_eq (building : job.Building begun stream [] state) :
    state.fifo.contents setting.opened state.entry = job.entry begun.fifo.filled := by
  rw [contents_eq_map job, entry]
  apply List.ext_getElem
  · simp
  · intro index _ inside
    have declared :=
      List.getElem?_eq_getElem (show index < job.sources.length by simpa using inside)
    rw [List.getElem_map, List.getElem_range, List.getElem_mapIdx, building.bufs]
    exact (building.events index _ declared).eq_event arrives (List.mem_of_getElem? declared)

/-- The end of a round in which a source is finished. -/
theorem finishEvent_stepped {event : EventId} (split : stream = seen ++ rest)
    (building : job.Building begun seen rest (GetBuffers.flagEvent state event)) :
    job.Stepped begun seen rest (GetBuffers.clean setting
      (GetBuffers.finishEvent setting state job.tick event) event) := by
  have complete := building.allHaveData_iff arrives split
  unfold GetBuffers.finishEvent
  simp only
  split
  case isTrue all =>
    have nothing := complete.mp all
    subst nothing
    rw [List.append_nil] at split
    subst split
    have contents := building.contents_eq arrives
    have buffers := building.buffers
    refine ⟨fun notNil => absurd rfl notNil, fun _ => ?_⟩
    rw [GetBuffers.clean_eq_self]
    · constructor
      · show List.filter _ (GetBuffers.flagEvent state event).buffers = []
        rw [buffers]
        exact List.filter_eq_nil_iff.mpr (by simp)
      · show _ ++ [_] = _
        rw [← building.reader, ← contents]
    · intro tick member
      change tick ∈ (List.filter _ (GetBuffers.flagEvent state event).buffers).map Prod.fst
        at member
      rw [buffers] at member
      simp at member
  case isFalse incomplete =>
    have later : rest ≠ [] := fun nothing => incomplete (complete.mpr nothing)
    rw [building.clean_eq_self]
    exact ⟨fun _ => building, fun nothing => absurd nothing later⟩

/-- The bytes that are counted with a packet reach its length with the last
packet of its source. -/
theorem total_ge_length_iff {packet : Packet} (split : stream = seen ++ packet :: rest)
    {id : EventId} {cache : Cache} {index : Nat}
    (cached : job.Cached id packet.dataId seen cache index) :
    (cache.bytesWritten index + UInt64.ofNat packet.payload.length).toNat ≥ packet.length.toNat ↔
      part rest job.tick packet.dataId = [] := by
  obtain ⟨isTick, sourceIn, inPackets⟩ := mem_of_split arrives split
  have cut : stream = seen ++ [packet] ++ rest := by simp [split]
  have light := weight_parts arrives cut sourceIn
  have short : (job.sent packet.dataId).payload.length < 2 ^ 32 := (job.sent packet.dataId).short
  have small : weight ((part (seen ++ [packet]) job.tick packet.dataId).map Packet.piece) <
      UInt64.size := by
    show _ < 2 ^ 64
    omega
  have exactTotal := UInt64.toNat_ofNat_of_lt' small
  rw [cached.total isTick, exactTotal, (Sending.mem_packets inPackets).2.2.1]
  exact le_weight_iff arrives split

/-- The rest of a round after the entry was selected. -/
theorem store_stepped {packet : Packet} (split : stream = seen ++ packet :: rest)
    (building : job.Building begun seen (packet :: rest) state)
    (held : state.packetBuffer.read reHeaderBytes packet.payload.length = packet.payload)
    {index : Nat} (declared : job.sources[index]? = .some packet.dataId) :
    ∃ after, GetBuffers.store setting state index (Complete.fields packet)
        (reHeaderBytes + packet.payload.length) = .again after ∧
      job.Stepped begun (seen ++ [packet]) rest after := by
  obtain ⟨isTick, sourceIn, inPackets⟩ := mem_of_split arrives split
  obtain ⟨-, -, announced, ends, -⟩ := Sending.mem_packets inPackets
  have cut : stream = seen ++ [packet] ++ rest := by simp [split]
  have fits := job.room _ sourceIn
  have room : ¬ (Complete.fields packet).length.toNat > setting.opened.bufSize.toNat := by
    show ¬ packet.length.toNat > _
    omega
  obtain ⟨cache, isCache, cached⟩ := building.arrays
  have own := cached index _ declared
  have writes := writePacket_eq isCache (own.event.trans (building.bufs index).symm)
    (ends.trans fits) held
  unfold GetBuffers.store
  rw [if_neg room, writes]
  simp only
  split
  case isTrue enough =>
    have last := (total_ge_length_iff arrives split own).mp enough
    have flagged := flagEvent_building building isTick declared cached last
    have stepped := finishEvent_stepped arrives cut flagged
    rw [← isTick] at stepped
    exact ⟨_, rfl, stepped⟩
  case isFalse few =>
    have later : part rest job.tick packet.dataId ≠ [] := fun nothing =>
      few ((total_ge_length_iff arrives split own).mpr nothing)
    have written := withPacket_building building isTick declared cached later
    refine ⟨_, congrArg _ (written.clean_eq_self _), fun _ => written, ?_⟩
    rintro rfl
    exact absurd rfl later

/-- A round whose packet finds its entry. -/
theorem round_stepped {packet : Packet} (split : stream = seen ++ packet :: rest)
    {selected : State}
    (selects : GetBuffers.selectEntry setting (GetBuffers.received state packet) packet.tick =
      .ok selected)
    (building : job.Building begun seen (packet :: rest)
      { selected with prevTick := packet.tick })
    (buffer : selected.packetBuffer = (GetBuffers.received state packet).packetBuffer) :
    ∃ after, GetBuffers.round setting state packet.recv = .again after ∧
      job.Stepped begun (seen ++ [packet]) rest after := by
  have member := arrives.subset (show packet ∈ stream by simp [split])
  obtain ⟨index, found, declared⟩ := exists_index (mem_packets member).2.1
  have held : selected.packetBuffer.read reHeaderBytes packet.payload.length = packet.payload := by
    have both := Memory.read_split (Memory.read_write_self state.packetBuffer 0 packet.bytes)
    rw [reHeader_length, Nat.zero_add] at both
    rw [buffer]
    exact both.2
  obtain ⟨after, stores, stepped⟩ := store_stepped arrives split building held declared
  refine ⟨after, ?_, stepped⟩
  rw [GetBuffers.round_packet state (proper member), found]
  simp only [GetBuffers.accept]
  rw [show (Complete.fields packet).tick = packet.tick from rfl, selects]
  exact stores

/-- A round while the tick is built: the packet is of the same tick. -/
theorem round_building {packet : Packet} (split : stream = seen ++ packet :: rest)
    (building : job.Building begun seen (packet :: rest) state) :
    ∃ after, GetBuffers.round setting state packet.recv = .again after ∧
      job.Stepped begun (seen ++ [packet]) rest after := by
  have isTick := (mem_of_split arrives split).1
  have same : packet.tick = (GetBuffers.received state packet).prevTick :=
    isTick.trans building.prevTick.symm
  have selects : GetBuffers.selectEntry setting (GetBuffers.received state packet) packet.tick =
      .ok (GetBuffers.received state packet) := by
    rw [GetBuffers.selectEntry, if_neg (not_ne_iff.mpr same)]
  obtain ⟨buffers, -, young, call, reader, events, arrays⟩ := building
  exact round_stepped arrives split selects
    ⟨buffers, isTick, young, call, reader, events, arrays⟩ rfl

end Round

/-! ### Runs -/

section Run

variable {begun : State} (empty : begun.buffers = []) (new : job.tick ≠ begun.prevTick)
variable (nonneg : 0 ≤ setting.tickPrescale)
variable (far : (job.tick.toNat : Int) + 4 * setting.tickPrescale < 2 ^ 64)
variable (close : (begun.biggestTick.toNat : Int) ≤ job.tick.toNat + 4 * setting.tickPrescale)
variable {stream : List Packet} (arrives : stream.Perm job.packets)

include empty new nonneg far close arrives

/-- The round of the first packet. -/
theorem round_first {packet : Packet} {rest : List Packet} (split : stream = packet :: rest) :
    ∃ after, GetBuffers.round setting begun packet.recv = .again after ∧
      job.Stepped begun [packet] rest after := by
  have isTick := (mem_of_split arrives (split.trans (List.nil_append _).symm)).1
  obtain ⟨selected, selects, building, buffer⟩ :=
    selectEntry_building (GetBuffers.received begun packet) empty new nonneg far close arrives
  rw [← isTick] at selects building
  obtain ⟨buffers, prevTick, young, call, reader, events, arrays⟩ := split ▸ building
  have opened : job.Building begun [] (packet :: rest)
      { selected with prevTick := packet.tick } :=
    ⟨buffers, prevTick, young, call, reader, events, arrays⟩
  exact round_stepped arrives (show stream = [] ++ packet :: rest from split) selects opened
    buffer

/-- The invariant holds after any packets of the tick. -/
theorem getBuffers_stepped {seen rest : List Packet} (split : stream = seen ++ rest)
    (nonempty : seen ≠ []) :
    ∃ state, getBuffers setting begun (seen.map Packet.recv) = .waiting state ∧
      job.Stepped begun seen rest state := by
  induction seen using List.reverseRecOn generalizing rest with
  | nil => exact absurd rfl nonempty
  | append_singleton earlier packet inductionHypothesis =>
      rw [List.append_assoc, List.singleton_append] at split
      by_cases first : earlier = []
      · subst first
        obtain ⟨after, steps, stepped⟩ := round_first empty new nonneg far close arrives split
        exact ⟨after, feed_cons_of_again steps [], stepped⟩
      · obtain ⟨state, reached, stepped⟩ := inductionHypothesis split first
        have building := stepped.waits (List.cons_ne_nil _ _)
        obtain ⟨after, steps, next⟩ := round_building arrives split building
        refine ⟨after, ?_, next⟩
        rw [List.map_append]
        exact (feed_append_of_waiting reached _).trans (feed_cons_of_again steps [])

end Run

variable (job)

/-- What the event of a source holds in the entry that is put. -/
structure Reassembled (Counted : Nat → Int32 → Prop) (source : UInt16) (held : Event) : Prop where
  hasData : held.hasData = true
  length : held.length.toNat = (job.sent source).payload.length
  contents : held.data.read 0 (job.sent source).payload.length = (job.sent source).payload
  packets : Counted (job.packetsOf source).length (held.control 5)

/-- The entry is put with the last packet, and none is put before. -/
structure PutsAtLast (setting : Setting) (begun : State) (stream : List Packet)
    (entry : List Event) : Prop where
  waits : ∀ seen rest, stream = seen ++ rest → rest ≠ [] → ∃ state,
    getBuffers setting begun (seen.map Packet.recv) = .waiting state ∧
      state.fifo.reader = begun.fifo.reader
  puts : ∃ state, getBuffers setting begun (stream.map Packet.recv) = .waiting state ∧
    state.buffers = [] ∧ state.fifo.reader = begun.fifo.reader ++ [entry]

/-- One entry with what every source has sent is put with the last packet, for
all orders of the packets. -/
def Assembles (begun : State) (Counted : Nat → Int32 → Prop) : Prop :=
  ∃ entry : List Event, List.Forall₂ (job.Reassembled Counted) job.sources entry ∧
    ∀ stream, stream.Perm job.packets → PutsAtLast setting begun stream entry

variable {job}

theorem event_control (job : OneTick setting) (call index : Nat) (source : UInt16) :
    (job.event call index source).control 1 = 1 ∧
      (job.event call index source).control 5 = Int32.ofNat (job.packetsOf source).length := by
  simp [event]

/-- The packets are counted modulo 2^32. -/
theorem reassembled_event {source : UInt16} (call index : Nat) :
    job.Reassembled (fun number word => word = Int32.ofNat number) source
      (job.event call index source) where
  hasData := by
    rw [Event.hasData, (job.event_control call index source).1]
    decide
  length := by
    have short := (job.sent source).short
    apply UInt64.toNat_ofNat_of_lt'
    show _ < 2 ^ 64
    exact lt_trans short (by decide)
  contents := Memory.read_write_self (setting.opened.freshData (call, index)) 0 _
  packets := (job.event_control call index source).2

theorem reassembled_entry (call : Nat) :
    List.Forall₂ (job.Reassembled fun number word => word = Int32.ofNat number) job.sources
      (job.entry call) := by
  refine List.forall₂_iff_get.mpr ⟨by simp [entry], fun index inside _ => ?_⟩
  simp only [List.get_eq_getElem, entry, List.getElem_mapIdx]
  exact reassembled_event call index

/-- The entry of the tick is put with the last packet, in whatever order the
packets come. -/
theorem putsAtLast {begun : State} (empty : begun.buffers = []) (new : job.tick ≠ begun.prevTick)
    (nonneg : 0 ≤ setting.tickPrescale)
    (far : (job.tick.toNat : Int) + 4 * setting.tickPrescale < 2 ^ 64)
    (close : (begun.biggestTick.toNat : Int) ≤ job.tick.toNat + 4 * setting.tickPrescale)
    {stream : List Packet} (arrives : stream.Perm job.packets) :
    PutsAtLast setting begun stream (job.entry begun.fifo.filled) where
  waits := by
    intro seen rest split later
    by_cases first : seen = []
    · subst first
      exact ⟨begun, rfl, rfl⟩
    · obtain ⟨state, reached, stepped⟩ :=
        getBuffers_stepped empty new nonneg far close arrives split first
      exact ⟨state, reached, (stepped.waits later).reader⟩
  puts := by
    have nonempty : stream ≠ [] := by
      rintro rfl
      obtain ⟨source, sourceIn⟩ := List.exists_mem_of_ne_nil _ job.hasSources
      have all := parts_perm arrives (List.nil_append []).symm sourceIn
      exact Sending.packets_ne_nil all.symm.eq_nil
    obtain ⟨state, reached, stepped⟩ :=
      getBuffers_stepped empty new nonneg far close arrives (List.append_nil stream).symm nonempty
    exact ⟨state, reached, stepped.puts rfl⟩

end OneTick

/-- One tick is reassembled from any state without a tick in the map, in any
order of its packets, with the packets counted modulo 2^32. -/
theorem oneTick_assembles {setting : Setting} (job : OneTick setting) {begun : State}
    (empty : begun.buffers = []) (new : job.tick ≠ begun.prevTick)
    (nonneg : 0 ≤ setting.tickPrescale)
    (far : (job.tick.toNat : Int) + 4 * setting.tickPrescale < 2 ^ 64)
    (close : (begun.biggestTick.toNat : Int) ≤ job.tick.toNat + 4 * setting.tickPrescale) :
    job.Assembles begun fun number word => word = Int32.ofNat number :=
  ⟨job.entry begun.fifo.filled, OneTick.reassembled_entry _, fun _ arrives =>
    OneTick.putsAtLast empty new nonneg far close arrives⟩

/-! ### Two sources -/

/-- The sample setting with the sources 7 and 8. -/
def pairSetting : Setting :=
  { sampleSetting with opened := { sampleSetting.opened with bufIds := [7, 8] } }

/-- Two bytes in two packets, and nothing in one packet. -/
def pairJob : OneTick pairSetting where
  tick := 5
  sources := [7, 8]
  sent := fun source => {
    version := 2
    reserved := 0
    chunks := if source = 7 then [[1], [2]] else [[]]
    versionNonneg := versionTwo_nonneg
    versionLt := versionTwo_lt
    hasChunks := by split <;> decide
    cut := by split <;> decide
    short := by split <;> decide }
  hasSources := by decide
  declared := rfl
  nodup := by decide
  jumbo := by
    intro source sourceIn
    rcases List.mem_pair.mp sourceIn with rfl | rfl <;> decide
  room := by
    intro source sourceIn
    rcases List.mem_pair.mp sourceIn with rfl | rfl <;> decide
  memory := fun _ => rfl
  accepts := fun _ => rfl

/-- The first tick after the start. -/
theorem oneTick_assembles_pair :
    pairJob.Assembles sampleBegun fun number word => word = Int32.ofNat number :=
  oneTick_assembles pairJob rfl (by decide) (by decide) (by decide) (by decide)

/-! ### Too many packets -/

/-- The sample setting with events of 2^31 bytes. -/
def largeSetting : Setting :=
  { sampleSetting with opened := { sampleSetting.opened with bufSize := 2 ^ 31 } }

/-- 2^31 bytes, each in a packet of its own. -/
def largeSending : Sending where
  version := 2
  reserved := 0
  chunks := List.replicate (2 ^ 31) [0]
  versionNonneg := versionTwo_nonneg
  versionLt := versionTwo_lt
  hasChunks := by
    rw [ne_eq, List.replicate_eq_nil_iff]
    decide
  cut := .inr fun chunk member => by
    rw [List.eq_of_mem_replicate member]
    exact List.cons_ne_nil _ _
  short := by
    rw [List.flatten_replicate_singleton, List.length_replicate]
    decide

theorem oneSource_ne_nil : [(7 : UInt16)] ≠ [] := List.cons_ne_nil _ _

theorem oneSource_nodup : [(7 : UInt16)].Nodup := List.nodup_singleton _

def largeJob : OneTick largeSetting where
  tick := 5
  sources := [7]
  sent := fun _ => largeSending
  hasSources := oneSource_ne_nil
  declared := rfl
  nodup := oneSource_nodup
  jumbo := fun _ _ chunk member => by
    rw [List.eq_of_mem_replicate member]
    decide
  room := fun _ _ => by
    rw [Sending.payload, largeSending, List.flatten_replicate_singleton, List.length_replicate]
    decide
  memory := fun _ => rfl
  accepts := fun _ => rfl

/-- 2^31 packets are not counted as 2^31. -/
theorem not_assembles_largeJob :
    sampleBegun.buffers = [] ∧ largeJob.tick ≠ sampleBegun.prevTick ∧
      0 ≤ largeSetting.tickPrescale ∧
      (largeJob.tick.toNat : Int) + 4 * largeSetting.tickPrescale < 2 ^ 64 ∧
      (sampleBegun.biggestTick.toNat : Int) ≤
        largeJob.tick.toNat + 4 * largeSetting.tickPrescale ∧
      ¬ largeJob.Assembles sampleBegun fun number word => word.toInt = number := by
  refine ⟨rfl, by decide, by decide, by decide, by decide, ?_⟩
  intro assembles
  obtain ⟨entry, reassembled, puts⟩ := assembles
  obtain ⟨state, reached, -, reader⟩ := (puts _ (List.Perm.refl _)).puts
  have actual : OneTick.PutsAtLast largeSetting sampleBegun largeJob.packets
      (largeJob.entry sampleBegun.fifo.filled) :=
    OneTick.putsAtLast rfl (by decide) (by decide) (by decide) (by decide) (List.Perm.refl _)
  obtain ⟨other, alsoReached, -, otherReader⟩ := actual.puts
  obtain rfl : state = other := Fed.waiting.inj (reached.symm.trans alsoReached)
  have same := List.singleton_inj.mp (List.append_cancel_left (reader.symm.trans otherReader))
  have entries : largeJob.entry sampleBegun.fifo.filled = [largeJob.event 0 0 7] := rfl
  rw [same, entries] at reassembled
  have number : (largeJob.packetsOf 7).length = 2 ^ 31 := by
    rw [OneTick.packetsOf, Sending.packets_length]
    exact List.length_replicate
  have exactly := (List.forall₂_cons.mp reassembled).1.packets
  rw [(largeJob.event_control _ 0 7).2, number] at exactly
  exact absurd exactly (by decide)

end Dift.Et
