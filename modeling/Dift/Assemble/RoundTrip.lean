import Dift.Assemble.Transmission
import Dift.Packetize.Series

/-!
Owns the end-to-end theorems of the version 2 packet format: what a series of
`sendPacketizedBufferSendNew` calls puts on the wire is reassembled by
`getCompletePacketizedBuffer` in any order of arrival, and nothing but a sent
payload is ever returned when packets are lost, reordered and mixed. Both are
read off the abstract receiver through `Complete.feed_refines`.
-/

namespace Dift.Assemble

open Dift.Foundation
open Dift.Wire
open Dift.Packetize

/-! ### From the sender's datagrams to packets -/

/-- The load balancer strips its own header; a direct datagram arrives as it
was sent. -/
def stripped (direct : Bool) (datagram : List UInt8) : List UInt8 :=
  if direct then datagram else datagram.drop lbHeaderBytes

/-- A datagram as it arrives at the receiver. -/
def delivered (direct : Bool) (datagram : List UInt8) : Recv :=
  .datagram (stripped direct datagram)

/-- The offset field of a datagram that has arrived, as the receiver reads it. -/
def arrivedOffset (host : ByteOrder) (bytes : List UInt8) : UInt32 :=
  (parseReHeader host (Complete.received bytes) 0).offset

theorem arrivedOffset_bytes (host : ByteOrder) {packet : Packet}
    (wellFormed : packet.WellFormed) : arrivedOffset host packet.bytes = packet.offset := by
  have whole : packet.bytes.take 65536 = packet.bytes := by
    have fits := wellFormed.fits
    apply List.take_of_length_le
    simp only [Packet.bytes, List.length_append, reHeader_length, reHeaderBytes]
    omega
  have headerHeld :=
    (Memory.read_split (Memory.read_write_self (fun _ => 0) 0 packet.bytes)).1
  rw [reHeader_length] at headerHeld
  rw [arrivedOffset, Complete.received, whole,
    parseReHeader_reHeader headerHeld wellFormed.versionNonneg wellFormed.versionLt]

section Sender

variable {args : SendNewArgs}

/-- The transmission that a series of calls amounts to. -/
def seriesTransmission (args : SendNewArgs) (pieces : List (List UInt8))
    (versionNonneg : 0 ≤ args.version) (versionLt : args.version < 16) (nonempty : pieces ≠ [])
    (sized : ∀ piece ∈ pieces, piece ≠ [] ∧ piece.length ≤ 65500)
    (short : pieces.flatten.length < 2 ^ 32) : Transmission where
  version := args.version
  reserved := args.reserved
  chunks := pieces
  versionNonneg := versionNonneg
  versionLt := versionLt
  hasChunks := nonempty
  nonempty := fun piece member => (sized piece member).1
  fits := fun piece member => (sized piece member).2
  short := short

/-- Stripped of the load-balancer header, a datagram is a packet. -/
theorem stripped_datagram (args : SendNewArgs) (offset : UInt32) (payload : List UInt8) :
    stripped args.direct (SendNew.datagram args offset payload) =
      reHeader offset args.fullLen args.tick args.version args.dataId args.reserved ++ payload := by
  unfold stripped SendNew.datagram SendNew.headers
  cases args.direct with
  | true => simp
  | false => simp [lbHeader_length]

/-- A series on an accepting socket puts the packets of one transmission on
the wire. -/
theorem series_transmission (payloadBounds : 1 ≤ args.maxUdpPayload ∧ args.maxUdpPayload ≤ 65500)
    (versionBounds : 0 ≤ args.version ∧ args.version < 16) {portions : List Portion}
    (hasPortions : portions ≠ []) (nonempty : ∀ portion ∈ portions, 0 < portion.dataLen)
    (fullLen : args.fullLen.toNat = (payloadOf portions).length) {outcomes : List SendOutcome}
    (series : SendNew.SendsSeries .accepting args portions outcomes) :
    ∃ transmission : Transmission, transmission.payload = payloadOf portions ∧
      (allSent outcomes).map (stripped args.direct) =
        (transmission.packets args.tick args.dataId).map Packet.bytes := by
  have size : toSize args.maxUdpPayload = args.maxUdpPayload.toNat :=
    toSize_of_nonneg (by omega) (by omega)
  rcases SendNew.series_sent payloadBounds nonempty series with ⟨pieces, sent⟩
  have total : pieces.flatten.length = args.fullLen.toNat := by rw [sent.data, fullLen]
  have short : pieces.flatten.length < 2 ^ 32 := total ▸ args.fullLen.toNat_lt
  have nonemptyPieces : pieces ≠ [] := by
    rintro rfl
    rcases List.exists_cons_of_ne_nil hasPortions with ⟨portion, rest, rfl⟩
    have positive := nonempty portion (by simp)
    have held := congrArg List.length sent.data
    simp only [List.flatten_nil, List.length_nil, payloadOf_cons, List.length_append,
      Portion.data, Memory.read_length] at held
    omega
  have sized : ∀ piece ∈ pieces, piece ≠ [] ∧ piece.length ≤ 65500 := fun piece member => by
    rcases sent.sized piece member with ⟨hasData, limit⟩
    exact ⟨hasData, by omega⟩
  refine ⟨seriesTransmission args pieces versionBounds.1 versionBounds.2 nonemptyPieces sized short,
    sent.data, ?_⟩
  rw [sent.sent, SendNew.datagrams, Transmission.packets, List.map_map, List.map_map]
  apply List.map_congr_left
  intro piece _
  have sameLength : UInt32.ofNat pieces.flatten.length = args.fullLen := by
    rw [total, UInt32.ofNat_toNat]
  simp only [Function.comp_apply, stripped_datagram, Packet.bytes, Transmission.packet,
    Transmission.payload, seriesTransmission, sameLength]

end Sender

/-! ### All packets, in any order -/

/-- An arrangement of the images is the image of an arrangement. -/
theorem exists_perm_map {α β : Type*} {image : α → β} {values : List α}
    {arranged : List β} (same : arranged.Perm (values.map image)) :
    ∃ order : List α, order.Perm values ∧ order.map image = arranged := by
  have matched : List.Forall₂ (fun output input => image input = output)
      (values.map image) values := by
    rw [List.forall₂_map_left_iff]
    exact List.forall₂_same.mpr fun _ _ => rfl
  rcases List.perm_comp_forall₂ same matched with ⟨order, related, perm⟩
  refine ⟨order, perm, ?_⟩
  have equal : List.Forall₂ (· = ·) arranged (order.map image) := by
    rw [List.forall₂_map_right_iff]
    exact related.imp fun _ _ outputs => outputs.symm
  rw [List.forall₂_eq_eq_eq] at equal
  exact equal.symm

/-- All packets of a transmission in any order, the one at offset 0 first, are
reassembled, and no datagram after them is read. -/
theorem reassemble_perm {args : CompleteArgs} {transmission : Transmission} {tick : UInt64}
    {dataId : UInt16} (prescale : args.stats = none ∨ args.tickPrescale ≠ 0)
    (room : transmission.payload.length ≤ args.bufLen) {first : Packet} {others : List Packet}
    (order : (first :: others).Perm (transmission.packets tick dataId)) (begins : first.offset = 0)
    (rest : List Recv) :
    ∃ outcome,
      getCompletePacketizedBuffer args ((first :: others).map Packet.recv ++ rest) =
        .left (.returned outcome) rest ∧
      outcome.ret = transmission.payload.length ∧
      outcome.dataBuf.read 0 transmission.payload.length = transmission.payload ∧
      outcome.tick = tick ∧
      outcome.dataId = if args.wantsDataId then some dataId else none := by
  have members : ∀ packet ∈ first :: others, packet ∈ transmission.packets tick dataId :=
    fun packet member => order.subset member
  have pieces : ((first :: others).map Packet.piece).Perm (layout 0 transmission.chunks) := by
    rw [← Transmission.map_piece_packets transmission tick dataId]
    exact order.map _
  have total : weight ((first :: others).map Packet.piece) = transmission.payload.length := by
    rw [weight_perm pieces, weight_layout]
    rfl
  have run : feed (Session.step args.bufLen) Session.initial (first :: others) =
      .left (.complete tick dataId [] ([] ++ (first :: others).map Packet.piece)) [] := by
    have started : feed (Session.step args.bufLen) Session.initial (first :: others) =
        feed (Session.step args.bufLen) ⟨[], .building first.tick first.dataId []⟩
          (first :: others) := by
      simp only [feed, Session.step_initial begins]
    rw [started, Transmission.mem_tick (members first (by simp)),
      Transmission.mem_dataId (members first (by simp))]
    exact Session.feed_exact (Session.uniform_packets members)
      (fun packet member => le_trans (Transmission.mem_end_le (members packet member)) room)
      (by simp)
      (fun packet member => (Transmission.mem_wellFormed (members packet member)).nonempty)
      [] [] (by simpa using total)
  have whole : ¬ Complete.Divides args := by
    intro divides
    obtain ⟨present, -, zero⟩ := divides
    rcases prescale with absent | positive
    · simp [absent] at present
    · exact positive zero
  rcases Complete.returned_of_completed
    (fun packet member => Transmission.mem_wellFormed (members packet member)) whole run with
    ⟨outcome, returns, delivers⟩
  refine ⟨outcome, feed_append_of_left returns rest, ?_, ?_, delivers.tick, delivers.dataId⟩
  · rw [delivers.ret, List.nil_append, total]
  · rw [delivers.buffer, List.nil_append, List.nil_append,
      Transmission.read_paste_packets _ pieces]

/-- The packetize/reassemble round trip. A payload sent in any nonempty
portions by successive calls of the version 2 sender, with every send
succeeding, is reassembled from its datagrams in any order whose first
datagram is the one with offset 0; exactly these datagrams are read. -/
theorem getCompletePacketizedBuffer_sendPacketizedBufferSendNew (send : SendNewArgs)
    (payloadBounds : 1 ≤ send.maxUdpPayload ∧ send.maxUdpPayload ≤ 65500)
    (versionBounds : 0 ≤ send.version ∧ send.version < 16) (portions : List Portion)
    (portionsSome : portions ≠ []) (nonempty : ∀ portion ∈ portions, 0 < portion.dataLen)
    (fullLen : send.fullLen.toNat = (payloadOf portions).length) :
    (∃ outcomes, SendNew.SendsSeries .accepting send portions outcomes) ∧
    ∀ outcomes, SendNew.SendsSeries .accepting send portions outcomes →
    ∀ (receive : CompleteArgs), (receive.stats = none ∨ receive.tickPrescale ≠ 0) →
      (payloadOf portions).length ≤ receive.bufLen →
    ∀ (first : List UInt8) (others : List (List UInt8)),
      (first :: others).Perm (allSent outcomes) →
      arrivedOffset receive.host (stripped send.direct first) = 0 →
    ∀ rest : List Recv, ∃ outcome,
      getCompletePacketizedBuffer receive
          ((first :: others).map (delivered send.direct) ++ rest) =
        .left (.returned outcome) rest ∧
      outcome.ret = (payloadOf portions).length ∧
      outcome.dataBuf.read 0 (payloadOf portions).length = payloadOf portions ∧
      outcome.tick = send.tick ∧
      outcome.dataId = if receive.wantsDataId then some send.dataId else none := by
  refine ⟨SendNew.exists_sendsSeries payloadBounds portionsSome, ?_⟩
  intro outcomes series receive prescale room first others order begins rest
  obtain ⟨transmission, payload, wire⟩ :=
    series_transmission payloadBounds versionBounds portionsSome nonempty fullLen series
  rw [← payload] at room ⊢
  -- The datagrams arrive as the bytes of the packets in some order.
  have arrived : ((first :: others).map (stripped send.direct)).Perm
      ((transmission.packets send.tick send.dataId).map Packet.bytes) :=
    wire ▸ order.map _
  rcases exists_perm_map arrived with ⟨packets, same, bytes⟩
  obtain ⟨packet, later, rfl⟩ : ∃ packet later, packets = packet :: later := by
    cases packets with
    | nil => simp at bytes
    | cons packet later => exact ⟨packet, later, rfl⟩
  have firstBytes : packet.bytes = stripped send.direct first := (List.cons.inj bytes).1
  rw [← firstBytes, arrivedOffset_bytes receive.host
    (Transmission.mem_wellFormed (same.subset (by simp)))] at begins
  have recvs : (first :: others).map (delivered send.direct) =
      (packet :: later).map Packet.recv := by
    have wrapped := congrArg (List.map Recv.datagram) bytes
    rw [List.map_map, List.map_map] at wrapped
    exact wrapped.symm
  rw [recvs]
  exact reassemble_perm prescale room same begins rest

/-! A payload of three bytes, sent in two portions and one byte a packet. -/

def sampleMemory : Mem := Memory.write (fun _ => 0) 0 [1, 2, 3]

def sampleSend : SendNewArgs where
  host := .little
  memory := sampleMemory
  stack := fun _ => 0
  dataBuffer := 0
  dataLen := 3
  maxUdpPayload := 1
  tick := 5
  protocol := 1
  entropy := 0
  version := 2
  dataId := 7
  offset := 0
  delay := 0
  delayPrescale := 1
  delayCounter := 0
  firstBuffer := true
  lastBuffer := true
  fullLen := 3
  direct := true
  noConnect := false
  reserved := 0

def samplePortions : List Portion :=
  [⟨sampleMemory, 0, 2, 0⟩, ⟨sampleMemory, 2, 1, 0⟩]

def sampleOutcomes : List SendOutcome :=
  [⟨0, 2, 2, 0, [SendNew.datagram sampleSend 0 [1], SendNew.datagram sampleSend 1 [2]]⟩,
    ⟨0, 3, 1, 0, [SendNew.datagram sampleSend 2 [3]]⟩]

theorem sampleSeries_sends :
    SendNew.SendsSeries .accepting sampleSend samplePortions sampleOutcomes :=
  .more ⟨3, by decide⟩ (.last ⟨2, by decide⟩)

def sampleReceive : CompleteArgs where
  host := .big
  dataBuf := fun _ => 0
  bufLen := 4
  tick := 0
  wantsDataId := true
  stats := none
  tickPrescale := 1

theorem sample_roundTrip :
    ∃ outcome, getCompletePacketizedBuffer sampleReceive
        ([SendNew.datagram sampleSend 0 [1], SendNew.datagram sampleSend 2 [3],
          SendNew.datagram sampleSend 1 [2]].map (delivered true) ++ []) =
        .left (.returned outcome) [] ∧
      outcome.ret = 3 ∧ outcome.dataBuf.read 0 3 = [1, 2, 3] ∧ outcome.tick = 5 ∧
      outcome.dataId = some 7 := by
  refine (getCompletePacketizedBuffer_sendPacketizedBufferSendNew sampleSend (by decide) (by decide)
    samplePortions (by decide) (by decide) (by decide)).2 sampleOutcomes sampleSeries_sends
    sampleReceive (.inl rfl) (by decide) _ _ ?_ (by decide) []
  exact .cons _ (.swap _ _ _)

/-! ### Some of the packets of many transmissions -/

/-- Reassembly is sound under loss, reordering and mixing: from a stream of
packets of any transmissions, none of them twice, a call that returns a length
returns that of the payload sent under the tick and source it reports, and the
buffer begins with that payload. -/
theorem getCompletePacketizedBuffer_sound (family : UInt64 → UInt16 → Transmission)
    (packets : List Packet)
    (sent : ∀ packet ∈ packets, ∃ tick dataId, packet ∈ (family tick dataId).packets tick dataId)
    (once : packets.Nodup) (args : CompleteArgs) (outcome : Outcome) (rest : List Recv)
    (returns : getCompletePacketizedBuffer args (packets.map Packet.recv) =
      .left (.returned outcome) rest)
    (success : 0 ≤ outcome.ret) :
    ∃ dataId, (args.wantsDataId = true → outcome.dataId = some dataId) ∧
      outcome.ret = (family outcome.tick dataId).payload.length ∧
      outcome.dataBuf.read 0 outcome.ret.toNat = (family outcome.tick dataId).payload := by
  have wellFormed : ∀ packet ∈ packets, packet.WellFormed := by
    intro packet member
    rcases sent packet member with ⟨tick, dataId, own⟩
    exact Transmission.mem_wellFormed own
  obtain ⟨tick, dataId, earlier, got, unread, run, -, -, delivers⟩ :=
    Complete.completed_of_returned wellFormed returns success
  obtain ⟨seen, split, ⟨chosen, sublist, rfl, same⟩, last, lastSeen, lastTick, lastSource,
    enough⟩ := Session.feed_sound run
  have own : ∀ packet ∈ seen, packet.tick = tick → packet.dataId = dataId →
      packet ∈ (family tick dataId).packets tick dataId := by
    intro packet member sameTick sameSource
    rcases sent packet (by simp [split, member]) with ⟨otherTick, otherSource, own⟩
    rw [Transmission.mem_tick own] at sameTick
    rw [Transmission.mem_dataId own] at sameSource
    rwa [sameTick, sameSource] at own
  have chosenOwn : ∀ packet ∈ chosen, packet ∈ (family tick dataId).packets tick dataId :=
    fun packet member => own packet (sublist.subset member) (same packet member).1
      (same packet member).2
  have chosenOnce : chosen.Nodup := by
    rw [split] at once
    exact (List.nodup_append.mp once).1.sublist sublist
  -- The count reached the length of the payload, so no packet is missing.
  have all : (chosen.map Packet.piece).Perm (layout 0 (family tick dataId).chunks) := by
    refine perm_of_weight_le (Transmission.nodup_map_piece chosenOnce chosenOwn) ?_ ?_ ?_
    · intro piece member
      rcases List.mem_map.mp member with ⟨packet, inChosen, rfl⟩
      exact Transmission.piece_mem (chosenOwn packet inChosen)
    · exact fun piece member => (family tick dataId).nonempty _ (mem_layout_block member)
    · rw [Transmission.mem_length (own last lastSeen lastTick lastSource)] at enough
      rwa [weight_layout]
  have total : weight (chosen.map Packet.piece) = (family tick dataId).payload.length := by
    rw [weight_perm all, weight_layout]
    rfl
  refine ⟨dataId, ?_, ?_, ?_⟩
  · intro wanted
    rw [delivers.dataId, if_pos wanted]
  · rw [delivers.ret, delivers.tick, total]
  · rw [delivers.ret, delivers.tick, delivers.buffer, total, paste_append]
    exact Transmission.read_paste_packets _ all

def sampleTransmission : Transmission where
  version := 2
  reserved := 0
  chunks := [[1], [2], [3]]
  versionNonneg := versionTwo_nonneg
  versionLt := versionTwo_lt
  hasChunks := by decide
  nonempty := by decide
  fits := by decide
  short := by decide

theorem sample_sound :
    ∃ outcome, getCompletePacketizedBuffer sampleReceive
        ((sampleTransmission.packets 5 7).map Packet.recv) = .left (.returned outcome) [] ∧
      0 ≤ outcome.ret ∧
      ∃ dataId, (sampleReceive.wantsDataId = true → outcome.dataId = some dataId) ∧
        outcome.ret = sampleTransmission.payload.length ∧
        outcome.dataBuf.read 0 outcome.ret.toNat = sampleTransmission.payload := by
  rcases reassemble_perm (.inl rfl)
    (show sampleTransmission.payload.length ≤ sampleReceive.bufLen by decide)
    (List.Perm.refl (sampleTransmission.packets 5 7)) rfl [] with ⟨outcome, returns, ret, -⟩
  rw [List.append_nil] at returns
  have success : 0 ≤ outcome.ret := by rw [ret]; decide
  exact ⟨outcome, returns, success, getCompletePacketizedBuffer_sound
    (fun _ _ => sampleTransmission) (sampleTransmission.packets 5 7)
    (fun _ member => ⟨5, 7, member⟩) (by decide) sampleReceive outcome [] returns success⟩

end Dift.Assemble
