import Dift.Assemble.Sessions

/-!
Owns payloads cut into version 2 packets, and the runs of the abstract receiver
on such packets. A transmission carries the bounds every packet needs, so that
its packets are well formed, pairwise different and lie side by side. Two run
lemmas follow: a session that is building one transmission completes exactly
with its last packet, and a session that completes has only got packets of the
tick and source it reports.
-/

namespace Dift.Assemble

open Dift.Foundation
open Dift.Wire

/-- One payload cut into chunks that fit a packet. The header's length field
is 32 bits wide. -/
structure Transmission where
  version : Int
  reserved : Int
  chunks : List (List UInt8)
  versionNonneg : 0 ≤ version
  versionLt : version < 16
  hasChunks : chunks ≠ []
  nonempty : ∀ chunk ∈ chunks, chunk ≠ []
  fits : ∀ chunk ∈ chunks, chunk.length ≤ 65500
  short : chunks.flatten.length < 2 ^ 32

/-- The version that is written is 2. -/
theorem versionTwo_nonneg : (0 : Int) ≤ 2 := by decide

theorem versionTwo_lt : (2 : Int) < 16 := by decide

namespace Transmission

variable (transmission : Transmission) (tick : UInt64) (dataId : UInt16)

def payload : List UInt8 := transmission.chunks.flatten

/-- The packet that carries one placed chunk. -/
def packet (piece : Placed UInt8) : Packet where
  version := transmission.version
  reserved := transmission.reserved
  tick := tick
  dataId := dataId
  offset := UInt32.ofNat piece.offset
  length := UInt32.ofNat transmission.payload.length
  payload := piece.block

/-- All packets of the transmission, in the order of their offsets. -/
def packets : List Packet :=
  (layout 0 transmission.chunks).map (transmission.packet tick dataId)

variable {transmission tick dataId}

theorem piece_packet {piece : Placed UInt8} (member : piece ∈ layout 0 transmission.chunks) :
    (transmission.packet tick dataId piece).piece = piece := by
  have inside := (layout_agrees member).end_le
    (transmission.nonempty _ (mem_layout_block member))
  have short := transmission.short
  have below : piece.offset < 2 ^ 32 := by omega
  simp [packet, Packet.piece, UInt32.toNat_ofNat_of_lt' below]

theorem map_piece_packets (transmission : Transmission) (tick : UInt64) (dataId : UInt16) :
    (transmission.packets tick dataId).map Packet.piece = layout 0 transmission.chunks := by
  rw [packets, List.map_map]
  conv_rhs => rw [← List.map_id (layout 0 transmission.chunks)]
  exact List.map_congr_left fun piece member => piece_packet member

theorem packets_ne_nil : transmission.packets tick dataId ≠ [] := by
  have nonempty := transmission.hasChunks
  rw [packets]
  cases chunks : transmission.chunks with
  | nil => exact absurd chunks nonempty
  | cons chunk rest => simp [layout]

/-! ### One packet of a transmission -/

section Member

variable {packet : Packet}

theorem piece_mem (member : packet ∈ transmission.packets tick dataId) :
    packet.piece ∈ layout 0 transmission.chunks := by
  rw [← map_piece_packets transmission tick dataId]
  exact List.mem_map_of_mem member

theorem mem_wellFormed (member : packet ∈ transmission.packets tick dataId) :
    packet.WellFormed := by
  rcases List.mem_map.mp member with ⟨piece, placed, rfl⟩
  have chunk := mem_layout_block placed
  exact ⟨transmission.versionNonneg, transmission.versionLt, transmission.nonempty _ chunk,
    transmission.fits _ chunk⟩

theorem mem_tick (member : packet ∈ transmission.packets tick dataId) : packet.tick = tick := by
  rcases List.mem_map.mp member with ⟨piece, -, rfl⟩
  rfl

theorem mem_dataId (member : packet ∈ transmission.packets tick dataId) :
    packet.dataId = dataId := by
  rcases List.mem_map.mp member with ⟨piece, -, rfl⟩
  rfl

theorem mem_length (member : packet ∈ transmission.packets tick dataId) :
    packet.length.toNat = transmission.payload.length := by
  rcases List.mem_map.mp member with ⟨piece, -, rfl⟩
  exact UInt32.toNat_ofNat_of_lt' transmission.short

theorem mem_end_le (member : packet ∈ transmission.packets tick dataId) :
    packet.offset.toNat + packet.payload.length ≤ transmission.payload.length :=
  (layout_agrees (piece_mem member)).end_le (mem_wellFormed member).nonempty

/-- A packet is determined by where its payload belongs. -/
theorem packet_piece (member : packet ∈ transmission.packets tick dataId) :
    transmission.packet tick dataId packet.piece = packet := by
  rcases List.mem_map.mp member with ⟨piece, placed, rfl⟩
  rw [piece_packet placed]

end Member

theorem packets_nodup : (transmission.packets tick dataId).Nodup := by
  apply List.Nodup.of_map Packet.piece
  rw [map_piece_packets]
  exact layout_nodup 0 transmission.nonempty

theorem nodup_map_piece {chosen : List Packet} (nodup : chosen.Nodup)
    (members : ∀ packet ∈ chosen, packet ∈ transmission.packets tick dataId) :
    (chosen.map Packet.piece).Nodup := by
  apply nodup.map_on
  intro first firstMember second secondMember same
  rw [← packet_piece (members first firstMember), same, packet_piece (members second secondMember)]

/-- Pasting every packet, whatever was there before, gives the payload. -/
theorem read_paste_packets (memory : Mem) {pieces : List (Placed UInt8)}
    (all : pieces.Perm (layout 0 transmission.chunks)) :
    (paste memory pieces).read 0 transmission.payload.length = transmission.payload :=
  read_paste_layout memory (fun _ member => all.subset member)
    (fun _ member => all.symm.subset member)

end Transmission

/-! ### Runs of the abstract receiver -/

namespace Session

variable {bufLen : Nat}

/-- A packet of the tick and source being built that fits the buffer. -/
theorem step_building (earlier got : List (Placed UInt8)) {packet : Packet}
    (room : packet.offset.toNat + packet.payload.length ≤ bufLen) :
    step bufLen ⟨earlier, .building packet.tick packet.dataId got⟩ packet =
      if packet.length.toNat ≤ weight (got ++ [packet.piece]) then
        .leave (.complete packet.tick packet.dataId earlier (got ++ [packet.piece]))
      else .again ⟨earlier, .building packet.tick packet.dataId (got ++ [packet.piece])⟩ := by
  simp only [step, ne_eq, not_true_eq_false, if_false, if_true, accept, if_neg (not_lt.mpr room)]

/-- A fresh session starts a buffer with a packet at offset 0. -/
theorem step_initial {packet : Packet} (first : packet.offset = 0) :
    step bufLen initial packet =
      step bufLen ⟨[], .building packet.tick packet.dataId []⟩ packet := by
  simp [step, initial, change, first]

/-! ### Building one buffer -/

/-- The packets that are read until `need` bytes are there. -/
def taken : Nat → List Packet → List Packet
  | _, [] => []
  | need, packet :: rest =>
      if need = 0 then [] else packet :: taken (need - packet.payload.length) rest

/-- The packets that are not read any more when `need` bytes are enough. -/
def leftover : Nat → List Packet → List Packet
  | _, [] => []
  | need, packet :: rest =>
      if need = 0 then packet :: rest else leftover (need - packet.payload.length) rest

theorem taken_append_leftover (need : Nat) (packets : List Packet) :
    taken need packets ++ leftover need packets = packets := by
  induction packets generalizing need with
  | nil => rfl
  | cons packet rest inductionHypothesis =>
      by_cases done : need = 0
      · simp [taken, leftover, done]
      · simp [taken, leftover, done, inductionHypothesis]

@[simp] theorem taken_zero (packets : List Packet) : taken 0 packets = [] := by
  cases packets <;> rfl

@[simp] theorem leftover_zero (packets : List Packet) : leftover 0 packets = packets := by
  cases packets <;> rfl

/-- Packets that weigh exactly what is needed are all read. -/
theorem taken_weight {packets : List Packet} (nonempty : ∀ packet ∈ packets, packet.payload ≠ []) :
    taken (weight (packets.map Packet.piece)) packets = packets := by
  induction packets with
  | nil => rfl
  | cons packet rest inductionHypothesis =>
      have positive : 0 < packet.payload.length :=
        List.length_pos_iff.mpr (nonempty packet (by simp))
      have tail := inductionHypothesis fun one member => nonempty one (by simp [member])
      have notZero : ¬ packet.payload.length + weight (rest.map Packet.piece) = 0 := by omega
      simp only [List.map_cons, weight_cons, taken, Packet.piece, if_neg notZero,
        Nat.add_sub_cancel_left] at tail ⊢
      rw [tail]

/-- Packets of one tick and source that announce `total` bytes. -/
structure Uniform (tick : UInt64) (dataId : UInt16) (total : Nat) (packets : List Packet) :
    Prop where
  ticks : ∀ packet ∈ packets, packet.tick = tick
  sources : ∀ packet ∈ packets, packet.dataId = dataId
  lengths : ∀ packet ∈ packets, packet.length.toNat = total

theorem Uniform.subset {tick : UInt64} {dataId : UInt16} {total : Nat}
    {packets some : List Packet} (uniform : Uniform tick dataId total packets)
    (subset : some ⊆ packets) : Uniform tick dataId total some where
  ticks := fun packet member => uniform.ticks packet (subset member)
  sources := fun packet member => uniform.sources packet (subset member)
  lengths := fun packet member => uniform.lengths packet (subset member)

theorem uniform_packets {transmission : Transmission} {tick : UInt64} {dataId : UInt16}
    {packets : List Packet}
    (members : ∀ packet ∈ packets, packet ∈ transmission.packets tick dataId) :
    Uniform tick dataId transmission.payload.length packets where
  ticks := fun packet member => Transmission.mem_tick (members packet member)
  sources := fun packet member => Transmission.mem_dataId (members packet member)
  lengths := fun packet member => Transmission.mem_length (members packet member)

section Building

variable {tick : UInt64} {dataId : UInt16} {total : Nat}

/-- The packets fit the buffer. -/
def Roomy (bufLen : Nat) (packets : List Packet) : Prop :=
  ∀ packet ∈ packets, packet.offset.toNat + packet.payload.length ≤ bufLen

/-- One packet of a session that is building. -/
theorem step_uniform {packet : Packet} {rest : List Packet}
    (uniform : Uniform tick dataId total (packet :: rest)) (room : Roomy bufLen (packet :: rest))
    (earlier got : List (Placed UInt8)) :
    step bufLen ⟨earlier, .building tick dataId got⟩ packet =
      if total ≤ weight (got ++ [packet.piece]) then
        .leave (.complete tick dataId earlier (got ++ [packet.piece]))
      else .again ⟨earlier, .building tick dataId (got ++ [packet.piece])⟩ := by
  have stepped := step_building earlier got (room packet (by simp))
  rwa [uniform.lengths packet (by simp), uniform.ticks packet (by simp),
    uniform.sources packet (by simp)] at stepped

/-- A session whose packets do not complete the buffer keeps them all. -/
theorem feed_incomplete {packets : List Packet} (uniform : Uniform tick dataId total packets)
    (room : Roomy bufLen packets) (earlier got : List (Placed UInt8))
    (few : weight (got ++ packets.map Packet.piece) < total) :
    feed (step bufLen) ⟨earlier, .building tick dataId got⟩ packets =
      .waiting ⟨earlier, .building tick dataId (got ++ packets.map Packet.piece)⟩ := by
  induction packets generalizing got with
  | nil => simp
  | cons packet rest inductionHypothesis =>
      have stepped := step_uniform uniform room earlier got
      have split : got ++ (packet :: rest).map Packet.piece =
          (got ++ [packet.piece]) ++ rest.map Packet.piece := by simp
      rw [split] at few ⊢
      have incomplete : ¬ total ≤ weight (got ++ [packet.piece]) := by
        rw [weight_append _ (rest.map _)] at few
        omega
      rw [if_neg incomplete] at stepped
      rw [feed_cons_of_again stepped]
      exact inductionHypothesis (uniform.subset (List.subset_cons_self _ _))
        (fun one member => room one (by simp [member])) _ few

/-- A session completes as soon as the bytes it needs are there. -/
theorem feed_complete {packets : List Packet} (uniform : Uniform tick dataId total packets)
    (room : Roomy bufLen packets) (earlier got : List (Placed UInt8)) (few : weight got < total)
    (enough : total ≤ weight (got ++ packets.map Packet.piece)) :
    feed (step bufLen) ⟨earlier, .building tick dataId got⟩ packets =
      .left (.complete tick dataId earlier
          (got ++ (taken (total - weight got) packets).map Packet.piece))
        (leftover (total - weight got) packets) := by
  induction packets generalizing got with
  | nil =>
      rw [List.map_nil, List.append_nil] at enough
      omega
  | cons packet rest inductionHypothesis =>
      have stepped := step_uniform uniform room earlier got
      have split : got ++ (packet :: rest).map Packet.piece =
          (got ++ [packet.piece]) ++ rest.map Packet.piece := by simp
      rw [split] at enough
      have grown : weight (got ++ [packet.piece]) = weight got + packet.payload.length := by
        simp [Packet.piece]
      have needs : ¬ total - weight got = 0 := by omega
      have next : total - weight got - packet.payload.length =
          total - weight (got ++ [packet.piece]) := by omega
      simp only [taken, leftover, if_neg needs, next]
      by_cases complete : total ≤ weight (got ++ [packet.piece])
      · rw [if_pos complete] at stepped
        rw [feed_cons_of_leave stepped, Nat.sub_eq_zero_of_le complete]
        simp
      · rw [if_neg complete] at stepped
        rw [feed_cons_of_again stepped, inductionHypothesis
          (uniform.subset (List.subset_cons_self _ _))
          (fun one member => room one (by simp [member])) _ (by omega) enough]
        simp

/-- Packets that weigh exactly what is missing complete the buffer with the
last of them. -/
theorem feed_exact {packets : List Packet} (uniform : Uniform tick dataId total packets)
    (room : Roomy bufLen packets) (hasPackets : packets ≠ [])
    (nonempty : ∀ packet ∈ packets, packet.payload ≠ []) (earlier got : List (Placed UInt8))
    (missing : weight got + weight (packets.map Packet.piece) = total) :
    feed (step bufLen) ⟨earlier, .building tick dataId got⟩ packets =
      .left (.complete tick dataId earlier (got ++ packets.map Packet.piece)) [] := by
  have positive : 0 < weight (packets.map Packet.piece) := by
    rcases List.exists_cons_of_ne_nil hasPackets with ⟨packet, rest, rfl⟩
    have data : 0 < packet.payload.length :=
      List.length_pos_iff.mpr (nonempty packet (by simp))
    simp only [List.map_cons, weight_cons, Packet.piece]
    omega
  have all := taken_weight nonempty
  have nothingLeft : leftover (weight (packets.map Packet.piece)) packets = [] := by
    have split := taken_append_leftover (weight (packets.map Packet.piece)) packets
    rw [all] at split
    exact List.append_right_eq_self.mp split
  have needs : total - weight got = weight (packets.map Packet.piece) := by omega
  rw [feed_complete uniform room earlier got (by omega) (by rw [weight_append]; omega), needs, all,
    nothingLeft]

end Building

/-! ### Soundness of every run -/

/-- What a session is building was chosen, in order, from what it has seen. -/
def Built (seen : List Packet) (tick : UInt64) (dataId : UInt16) (got : List (Placed UInt8)) :
    Prop :=
  ∃ chosen : List Packet, chosen.Sublist seen ∧ got = chosen.map Packet.piece ∧
    ∀ packet ∈ chosen, packet.tick = tick ∧ packet.dataId = dataId

theorem Built.nil (seen : List Packet) (tick : UInt64) (dataId : UInt16) :
    Built seen tick dataId [] :=
  ⟨[], List.nil_sublist _, rfl, by simp⟩

theorem Built.later {seen : List Packet} {tick : UInt64} {dataId : UInt16}
    {got : List (Placed UInt8)} (built : Built seen tick dataId got) (packet : Packet) :
    Built (seen ++ [packet]) tick dataId got := by
  rcases built with ⟨chosen, sublist, rest⟩
  exact ⟨chosen, sublist.trans (List.sublist_append_left _ _), rest⟩

theorem Built.snoc {seen : List Packet} {packet : Packet} {got : List (Placed UInt8)}
    (built : Built seen packet.tick packet.dataId got) :
    Built (seen ++ [packet]) packet.tick packet.dataId (got ++ [packet.piece]) := by
  rcases built with ⟨chosen, sublist, rfl, same⟩
  refine ⟨chosen ++ [packet], sublist.append (List.Sublist.refl _), by simp, ?_⟩
  intro one member
  rcases List.mem_append.mp member with before | last
  · exact same one before
  · rw [List.mem_singleton.mp last]
    exact ⟨rfl, rfl⟩

/-- The invariant of a run. -/
def Sound (seen : List Packet) (session : Session) : Prop :=
  match session.phase with
  | .building tick dataId got => Built seen tick dataId got
  | _ => True

/-- What the end of a run says about the packets seen. -/
def SoundVerdict (seen : List Packet) : Verdict → Prop
  | .complete tick dataId _ got =>
      Built seen tick dataId got ∧ ∃ packet ∈ seen, packet.tick = tick ∧ packet.dataId = dataId ∧
        packet.length.toNat ≤ weight got
  | .tooSmall => True

/-- A round is sound when both of its ends are. -/
def SoundRound (seen : List Packet) : Round Session Verdict → Prop
  | .again session => Sound seen session
  | .leave verdict => SoundVerdict seen verdict

private theorem accept_sound {seen : List Packet} {packet : Packet}
    {earlier got : List (Placed UInt8)} (built : Built seen packet.tick packet.dataId got) :
    SoundRound (seen ++ [packet]) (accept bufLen earlier got packet) := by
  unfold accept
  split_ifs with tooBig complete
  · trivial
  · exact ⟨built.snoc, packet, by simp, rfl, rfl, complete⟩
  · exact built.snoc

private theorem change_sound (seen : List Packet) (packet : Packet)
    (earlier : List (Placed UInt8)) :
    SoundRound (seen ++ [packet]) (change bufLen earlier packet) := by
  unfold change
  split_ifs with missing
  · trivial
  · exact accept_sound (Built.nil _ _ _)

theorem step_sound {seen : List Packet} {session : Session} (packet : Packet)
    (sound : Sound seen session) :
    SoundRound (seen ++ [packet]) (step bufLen session packet) := by
  rcases session with ⟨earlier, phase⟩
  unfold step
  cases phase with
  | fresh =>
      dsimp only
      split_ifs with sentinel
      · exact accept_sound (Built.nil _ _ _)
      · exact change_sound _ _ _
  | dumping tick =>
      dsimp only
      split_ifs with again
      · trivial
      · exact change_sound _ _ _
  | building tick dataId got =>
      dsimp only
      split_ifs with foreign again
      · exact Built.later sound packet
      · rcases again with rfl
        rcases not_not.mp foreign with rfl
        exact accept_sound sound
      · exact change_sound _ _ _

/-- A session that completes has got only packets of the tick and source it
reports, each as often as it was seen. -/
theorem feed_sound {packets rest : List Packet} {verdict : Verdict}
    (ends : feed (step bufLen) initial packets = .left verdict rest) :
    ∃ seen, packets = seen ++ rest ∧ SoundVerdict seen verdict := by
  have start : Sound [] initial := trivial
  refine feed_left_post Sound SoundVerdict ?_ ?_ start ends
  · intro seen packet before after sound stepped
    have next : SoundRound (seen ++ [packet]) (step bufLen before packet) :=
      step_sound packet sound
    rwa [stepped] at next
  · intro seen packet before verdict sound stepped
    have next : SoundRound (seen ++ [packet]) (step bufLen before packet) :=
      step_sound packet sound
    rwa [stepped] at next

end Session

end Dift.Assemble
