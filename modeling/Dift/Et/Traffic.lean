import Dift.Foundation.Stretches
import Dift.Assemble.Transmission
import Dift.Et.Conservation

/-!
Owns the traffic that `getBuffers` is meant for: one payload for each declared
source of each tick, cut into packets that arrive once each in any order. What
is asked of ticks, sizes and the ET system is part of the traffic. The lemma
about counting says when the packets of one tick and source that came since the
last change of the tick are all there are: when nothing of another tick stands
between any of them, and none is to come.
-/

namespace Dift.Et

open Dift.Foundation
open Dift.Wire
open Dift.Assemble

/-- Payloads for all declared sources of some ticks, an ET system that has room
for them and does not fail, and ticks that are never old and not near 2^64. -/
structure Traffic (setting : Setting) where
  sources : List UInt16
  ticks : List UInt64
  sent : UInt64 → UInt16 → Transmission
  declared : setting.opened.bufIds = sources.map fun source => (source.toNat : Int)
  sourcesNodup : sources.Nodup
  ticksNodup : ticks.Nodup
  jumbo : ∀ tick ∈ ticks, ∀ source ∈ sources, ∀ chunk ∈ (sent tick source).chunks,
    reHeaderBytes + chunk.length ≤ packetBufSize
  room : ∀ tick ∈ ticks, ∀ source ∈ sources,
    (sent tick source).payload.length ≤ setting.opened.bufSize.toNat
  close : ∀ tick ∈ ticks, ∀ other ∈ ticks,
    (other.toNat : Int) ≤ tick.toNat + 4 * setting.tickPrescale
  far : ∀ tick ∈ ticks, (tick.toNat : Int) + 4 * setting.tickPrescale < 2 ^ 64 - 1
  memory : ∀ count, setting.opened.noMemory count = false
  accepts : ∀ count, setting.opened.refusal count = none

theorem bufIdReverseMap_append (ids : List Int) (last id : Int) :
    bufIdReverseMap (ids ++ [last]) id =
      if id = last then some ids.length else bufIdReverseMap ids id := by
  simp only [bufIdReverseMap, List.zipIdx_append, List.foldl_append, List.zipIdx_singleton,
    List.foldl_cons, List.foldl_nil, Function.update_apply, Nat.zero_add]

/-- An identifier is mapped to one of its places. -/
theorem exists_bufIdReverseMap {ids : List Int} {id : Int} (member : id ∈ ids) :
    ∃ index, bufIdReverseMap ids id = some index ∧ ids[index]? = some id := by
  induction ids using List.reverseRecOn with
  | nil => cases member
  | append_singleton rest last inductionHypothesis =>
      rw [bufIdReverseMap_append]
      by_cases same : id = last
      · exact ⟨rest.length, if_pos same, by simp [same]⟩
      · have earlier : id ∈ rest := by simpa [same] using member
        rcases inductionHypothesis earlier with ⟨index, found, place⟩
        rcases List.getElem?_eq_some_iff.mp place with ⟨inside, -⟩
        exact ⟨index, by rw [if_neg same, found], by rw [List.getElem?_append_left inside, place]⟩

/-- A 16-bit identifier is mapped to its place. -/
theorem exists_declaredIndex {sources : List UInt16} {source : UInt16} (member : source ∈ sources) :
    ∃ index, bufIdReverseMap (sources.map fun source => (source.toNat : Int)) source.toNat =
        some index ∧ sources[index]? = some source := by
  have inIds : (source.toNat : Int) ∈ sources.map fun source => (source.toNat : Int) :=
    List.mem_map_of_mem member
  rcases exists_bufIdReverseMap inIds with ⟨index, found, place⟩
  refine ⟨index, found, ?_⟩
  rw [List.getElem?_map, Option.map_eq_some_iff] at place
  rcases place with ⟨other, isOther, same⟩
  rw [isOther, UInt16.toNat_inj.mp (Int.ofNat.inj same)]

namespace Traffic

variable {setting : Setting} (traffic : Traffic setting)

/-- The packets of one tick and source. -/
def packetsOf (tick : UInt64) (source : UInt16) : List Packet :=
  (traffic.sent tick source).packets tick source

def packets : List Packet :=
  traffic.ticks.flatMap fun tick => traffic.sources.flatMap (traffic.packetsOf tick)

variable {traffic}

theorem mem_packetsOf {tick : UInt64} {source : UInt16} {packet : Packet}
    (member : packet ∈ traffic.packetsOf tick source) :
    packet.tick = tick ∧ packet.dataId = source :=
  ⟨Transmission.mem_tick member, Transmission.mem_dataId member⟩

theorem mem_packets {packet : Packet} : packet ∈ traffic.packets ↔
    packet.tick ∈ traffic.ticks ∧ packet.dataId ∈ traffic.sources ∧
      packet ∈ traffic.packetsOf packet.tick packet.dataId := by
  simp only [packets, List.mem_flatMap]
  constructor
  · intro found
    obtain ⟨tick, tickIn, source, sourceIn, member⟩ := found
    rcases mem_packetsOf member with ⟨rfl, rfl⟩
    exact ⟨tickIn, sourceIn, member⟩
  · intro found
    obtain ⟨tickIn, sourceIn, member⟩ := found
    exact ⟨_, tickIn, _, sourceIn, member⟩

theorem packets_nodup : traffic.packets.Nodup := by
  refine List.nodup_flatMap.mpr ⟨fun tick _ => ?_, ?_⟩
  · refine List.nodup_flatMap.mpr ⟨fun source _ => Transmission.packets_nodup, ?_⟩
    apply traffic.sourcesNodup.imp
    intro first second different packet inFirst inSecond
    exact different ((mem_packetsOf inFirst).2.symm.trans (mem_packetsOf inSecond).2)
  · apply traffic.ticksNodup.imp
    intro first second different packet inFirst inSecond
    rcases List.mem_flatMap.mp inFirst with ⟨_, -, isFirst⟩
    rcases List.mem_flatMap.mp inSecond with ⟨_, -, isSecond⟩
    exact different ((mem_packetsOf isFirst).1.symm.trans (mem_packetsOf isSecond).1)

theorem proper {packet : Packet} (member : packet ∈ traffic.packets) : Proper packet := by
  rcases mem_packets.mp member with ⟨tickIn, sourceIn, inPackets⟩
  have wellFormed := Transmission.mem_wellFormed inPackets
  have chunk := mem_layout_block (Transmission.piece_mem inPackets)
  exact {
    versionNonneg := wellFormed.versionNonneg
    versionLt := wellFormed.versionLt
    fits := traffic.jumbo _ tickIn _ sourceIn _ chunk }

/-- No tick is the one that stands for none. -/
theorem tick_ne_max (traffic : Traffic setting) {tick : UInt64} (member : tick ∈ traffic.ticks) :
    tick ≠ 0xFFFFFFFFFFFFFFFF := by
  rintro rfl
  have close := traffic.close _ member _ member
  have far := traffic.far _ member
  have value : (0xFFFFFFFFFFFFFFFF : UInt64).toNat = 2 ^ 64 - 1 := rfl
  rw [value] at close far
  omega

/-- The index of a declared source. -/
theorem exists_index {source : UInt16} (member : source ∈ traffic.sources) :
    ∃ index, bufIdReverseMap setting.opened.bufIds source.toNat = some index ∧
      traffic.sources[index]? = some source := by
  rw [traffic.declared]
  exact exists_declaredIndex member

/-- A source has one index. -/
theorem index_unique {source : UInt16} {first second : Nat}
    (one : traffic.sources[first]? = some source) (other : traffic.sources[second]? = some source) :
    first = second := by
  rcases List.getElem?_eq_some_iff.mp one with ⟨inside, -⟩
  exact (List.getElem?_inj inside traffic.sourcesNodup).mp (one.trans other.symm)

end Traffic

/-! ### Parts of a stream -/

/-- The packets of one tick and source among some packets. -/
def part (packets : List Packet) (tick : UInt64) (source : UInt16) : List Packet :=
  packets.filter fun packet => packet.tick = tick ∧ packet.dataId = source

theorem mem_part {packets : List Packet} {tick : UInt64} {source : UInt16} {packet : Packet} :
    packet ∈ part packets tick source ↔
      packet ∈ packets ∧ packet.tick = tick ∧ packet.dataId = source := by
  simp [part]

theorem part_append (first second : List Packet) (tick : UInt64) (source : UInt16) :
    part (first ++ second) tick source = part first tick source ++ part second tick source := by
  simp [part]

theorem part_single_self (packet : Packet) :
    part [packet] packet.tick packet.dataId = [packet] := by
  simp [part]

theorem part_single_other {packet : Packet} {tick : UInt64} {source : UInt16}
    (other : ¬ (packet.tick = tick ∧ packet.dataId = source)) : part [packet] tick source = [] := by
  simp only [part, List.filter_cons, List.filter_nil, other, decide_false, Bool.false_eq_true,
    if_false]

/-- The packets since the last change of the tick. -/
def session (seen : List Packet) (tick : UInt64) : List Packet :=
  stretch (fun packet : Packet => packet.tick = tick) seen

/-- Between two packets of the tick and source there is none of another tick. -/
def Contiguous (stream : List Packet) (tick : UInt64) (source : UInt16) : Prop :=
  Together (fun packet : Packet => packet.tick = tick)
    (fun packet : Packet => packet.tick = tick ∧ packet.dataId = source) stream

/-- The packets of the tick and source are contiguous and all there. -/
def Finished (stream rest : List Packet) (tick : UInt64) (source : UInt16) : Prop :=
  Contiguous stream tick source ∧ ∀ packet ∈ rest, ¬ (packet.tick = tick ∧ packet.dataId = source)

section Stream

variable {setting : Setting} {traffic : Traffic setting} {stream : List Packet}
variable (arrives : stream.Perm traffic.packets)

include arrives

theorem stream_nodup : stream.Nodup :=
  arrives.nodup_iff.mpr Traffic.packets_nodup

/-- Some packets of a stream have their pieces in the payload's layout, once. -/
theorem part_pieces {chosen : List Packet} (sublist : chosen.Sublist stream) (tick : UInt64)
    (source : UInt16) :
    ((part chosen tick source).map Packet.piece).Nodup ∧
      (part chosen tick source).map Packet.piece ⊆ layout 0 (traffic.sent tick source).chunks := by
  have members : ∀ packet ∈ part chosen tick source, packet ∈ traffic.packetsOf tick source := by
    intro packet member
    rcases mem_part.mp member with ⟨inChosen, rfl, rfl⟩
    exact (Traffic.mem_packets.mp (arrives.subset (sublist.subset inChosen))).2.2
  have nodup : (part chosen tick source).Nodup :=
    ((stream_nodup arrives).sublist sublist).filter _
  refine ⟨Transmission.nodup_map_piece nodup members, ?_⟩
  intro piece inPieces
  rcases List.mem_map.mp inPieces with ⟨packet, member, rfl⟩
  exact Transmission.piece_mem (members packet member)

theorem weight_part_le {chosen : List Packet} (sublist : chosen.Sublist stream) (tick : UInt64)
    (source : UInt16) :
    weight ((part chosen tick source).map Packet.piece) ≤
      (traffic.sent tick source).payload.length := by
  rcases part_pieces arrives sublist tick source with ⟨nodup, subset⟩
  have light := weight_le_of_subset nodup subset
  rwa [weight_layout] at light

/-- A part that weighs as much as the payload has all packets. -/
theorem part_complete_iff {chosen : List Packet} (sublist : chosen.Sublist stream)
    {tick : UInt64} (tickIn : tick ∈ traffic.ticks) {source : UInt16}
    (sourceIn : source ∈ traffic.sources) :
    (traffic.sent tick source).payload.length ≤
        weight ((part chosen tick source).map Packet.piece) ↔
      ∀ packet ∈ stream, packet.tick = tick ∧ packet.dataId = source → packet ∈ chosen := by
  rcases part_pieces arrives sublist tick source with ⟨nodup, subset⟩
  have inLayout : ∀ packet ∈ stream, packet.tick = tick ∧ packet.dataId = source →
      packet ∈ traffic.packetsOf tick source := by
    intro packet member both
    obtain ⟨rfl, rfl⟩ := both
    exact (Traffic.mem_packets.mp (arrives.subset member)).2.2
  constructor
  · intro heavy packet member isPart
    have all := perm_of_weight_le nodup subset
      (fun piece inPieces => (traffic.sent tick source).nonempty _ (mem_layout_block inPieces))
      (by rw [weight_layout]; exact heavy)
    have inPackets := inLayout packet member isPart
    rcases List.mem_map.mp
      (all.symm.subset (Transmission.piece_mem inPackets)) with ⟨other, inPart, samePiece⟩
    rcases mem_part.mp inPart with ⟨inChosen, isOther⟩
    have same := Transmission.packet_piece
      (inLayout other (sublist.subset inChosen) isOther)
    rw [samePiece, Transmission.packet_piece inPackets] at same
    rw [same]
    exact inChosen
  · intro all
    have layoutNodup := layout_nodup 0 (traffic.sent tick source).nonempty
    have heavy := weight_le_of_subset layoutNodup
      (show layout 0 (traffic.sent tick source).chunks ⊆
        (part chosen tick source).map Packet.piece from fun piece inPieces => by
          have member : (traffic.sent tick source).packet tick source piece ∈
              traffic.packetsOf tick source := List.mem_map_of_mem inPieces
          have inStream : (traffic.sent tick source).packet tick source piece ∈ stream :=
            arrives.symm.subset (Traffic.mem_packets.mpr ⟨tickIn, sourceIn, member⟩)
          rw [← Transmission.piece_packet inPieces]
          exact List.mem_map_of_mem (mem_part.mpr ⟨all _ inStream ⟨rfl, rfl⟩, rfl, rfl⟩))
    rwa [weight_layout] at heavy

/-- The bytes of the current session reach the payload's length exactly with
the last packet of a contiguous part. -/
theorem le_weight_session_iff {seen rest : List Packet} {packet : Packet}
    (split : stream = seen ++ packet :: rest) :
    (traffic.sent packet.tick packet.dataId).payload.length ≤
        weight ((part (session (seen ++ [packet]) packet.tick) packet.tick
          packet.dataId).map Packet.piece) ↔
      Finished stream rest packet.tick packet.dataId := by
  have member : packet ∈ stream := by simp [split]
  rcases Traffic.mem_packets.mp (arrives.subset member) with ⟨tickIn, sourceIn, -⟩
  have sublist : (session (seen ++ [packet]) packet.tick).Sublist stream := by
    have cut : stream = seen ++ [packet] ++ rest := by simp [split]
    apply (stretch_suffix _ _).sublist.trans
    rw [cut]
    exact List.sublist_append_left _ _
  rw [part_complete_iff arrives sublist tickIn sourceIn, Finished, Contiguous, split]
  have nodup := stream_nodup arrives
  rw [split] at nodup
  exact all_in_stretch_iff (fun one chosen => chosen.1) nodup ⟨rfl, rfl⟩

end Stream

end Dift.Et
