import Dift.Assemble.RoundTrip
import Dift.Wire.ReParsers

/-!
Owns the two forms of `readPacketRecvFrom`, which read one datagram each and
leave its data at the beginning of the caller's buffer. A caller that reads the
packets of a series this way, in any order and with buffers of its own, can tell
whether it has all of them, from the marks and the numbers of version 1 packets
or from the length that version 2 packets carry; and when it has, sorting them by
number, or pasting them at their offsets, gives the payload.
-/

namespace Dift.Assemble

open Dift.Foundation
open Dift.Wire
open Dift.Packetize

/-! ### Reading one datagram -/

/-- What a call leaves behind: the returned value, the buffer's memory and what
was written through the other pointers, if anything was. -/
structure PacketRead (φ : Type*) where
  ret : Int
  dataBuf : Mem
  fields : Option φ

/-- The body that both forms share. The room that is asked for is that of the
whole datagram, although only its data is copied. -/
def readPacket {φ : Type*} (headerBytes : Nat) (parse : Mem → φ) (dataBuf : Mem) (bufLen : Nat) :
    Recv → PacketRead φ
  | .failed => ⟨recvMsg, dataBuf, none⟩
  | .datagram bytes =>
      let pkt := Complete.received bytes
      let bytesRead := (bytes.take 65536).length
      if bytesRead < headerBytes then ⟨internalError, dataBuf, none⟩
      else if bufLen < bytesRead then ⟨bufTooSmall, dataBuf, none⟩
      else
        let dataBytes := bytesRead - headerBytes
        ⟨dataBytes, dataBuf.write 0 (pkt.read headerBytes dataBytes), some (parse pkt)⟩

/-- The form for version 2 packets. -/
def readPacketRecvFrom (host : ByteOrder) : Mem → Nat → Recv → PacketRead RePointers :=
  readPacket reHeaderBytes fun pkt => parseReHeaderPointers host pkt 0

/-- The form for version 1 packets. -/
def readPacketRecvFromOld (host : ByteOrder) : Mem → Nat → Recv → PacketRead ReFieldsOld :=
  readPacket reHeaderBytesOld fun pkt => parseReHeaderOld host pkt 0

/-- What the caller has after a call that succeeded: the fields, and as many
bytes of its buffer as were returned. -/
def PacketRead.got {φ : Type*} (read : PacketRead φ) : Option (φ × List UInt8) :=
  read.fields.map fun fields => (fields, read.dataBuf.read 0 read.ret.toNat)

/-- A datagram with a header is read exactly when there is room for all of it. -/
theorem readPacket_got {φ : Type*} {headerBytes : Nat} (parse : Mem → φ) (dataBuf : Mem)
    (bufLen : Nat) {header : List UInt8} (isHeader : header.length = headerBytes)
    (payload : List UInt8) (short : (header ++ payload).length ≤ 65536) :
    (readPacket headerBytes parse dataBuf bufLen (.datagram (header ++ payload))).got =
      if (header ++ payload).length ≤ bufLen then
        some (parse (Complete.received (header ++ payload)), payload)
      else none := by
  have whole : (header ++ payload).take 65536 = header ++ payload := List.take_of_length_le short
  have size : (header ++ payload).length = headerBytes + payload.length := by
    rw [List.length_append, isHeader]
  have held : (Complete.received (header ++ payload)).read headerBytes payload.length = payload := by
    have parts := (Memory.read_split (Memory.read_write_self (fun _ => 0) 0 (header ++ payload))).2
    rw [isHeader, Nat.zero_add] at parts
    rw [Complete.received, whole]
    exact parts
  have count : (header ++ payload).length - headerBytes = payload.length := by omega
  rw [readPacket]
  simp only [whole]
  rw [if_neg (by omega), count, held]
  split_ifs with large fits fits
  · omega
  · rfl
  · rw [PacketRead.got, Option.map_some, Int.toNat_natCast, Memory.read_write_self]
  · omega

/-- What the calls of one form gave. -/
def readAll {φ : Type*} (form : Mem → Nat → Recv → PacketRead φ) (bufLen : Nat)
    (calls : List (Mem × List UInt8)) : List (φ × List UInt8) :=
  calls.filterMap fun call => (form call.1 bufLen (.datagram call.2)).got

/-! ### Which packets were read -/

section Chosen

variable {φ γ : Type*} {form : Mem → Nat → Recv → PacketRead φ} {bufLen : Nat}
  {image : γ → List UInt8} {result : γ → φ × List UInt8}

/-- What the calls gave is what they gave for the packets that fit. -/
theorem readAll_eq (bufLen : Nat) {chosen : List γ}
    (reads : ∀ value ∈ chosen, ∀ dataBuf, (form dataBuf bufLen (.datagram (image value))).got =
      if (image value).length ≤ bufLen then some (result value) else none)
    {calls : List (Mem × List UInt8)} (arrived : chosen.map image = calls.map Prod.snd) :
    readAll form bufLen calls =
      (chosen.filter fun value => (image value).length ≤ bufLen).map result := by
  induction chosen generalizing calls with
  | nil =>
      have noCalls : calls = [] := List.map_eq_nil_iff.mp arrived.symm
      rw [noCalls]
      rfl
  | cons value rest inductionHypothesis =>
      rcases List.map_eq_cons_iff.mp arrived.symm with ⟨call, later, rfl, isImage, same⟩
      have tail := inductionHypothesis (fun other member => reads other (by simp [member]))
        same.symm
      have head := reads value (by simp) call.1
      rw [readAll] at tail ⊢
      rw [List.filterMap_cons, isImage, head, tail, List.filter_cons]
      by_cases fits : (image value).length ≤ bufLen
      · rw [if_pos fits, if_pos (decide_eq_true fits)]
        rfl
      · rw [if_neg fits, if_neg (mt of_decide_eq_true fits)]

/-- All packets were read exactly when all arrived and each had room. -/
theorem kept_perm_iff {chosen values : List γ} (subperm : chosen.Subperm values)
    {calls : List (Mem × List UInt8)} (arrived : chosen.map image = calls.map Prod.snd) :
    (chosen.filter fun value => (image value).length ≤ bufLen).Perm values ↔
      (calls.map Prod.snd).Perm (values.map image) ∧ ∀ call ∈ calls, call.2.length ≤ bufLen := by
  constructor
  · intro all
    have count := all.length_eq
    have inside := List.length_filter_le
      (fun value => decide ((image value).length ≤ bufLen)) chosen
    have allChosen := subperm.perm_of_length_le (by omega)
    have kept := List.length_filter_eq_length_iff.mp (count.trans allChosen.length_eq.symm)
    constructor
    · rw [← arrived]
      exact allChosen.map _
    · intro call member
      have isMember : call.2 ∈ chosen.map image := by
        rw [arrived]
        exact List.mem_map_of_mem member
      rcases List.mem_map.mp isMember with ⟨value, inChosen, same⟩
      rw [← same]
      exact of_decide_eq_true (kept value inChosen)
  · intro both
    rcases both with ⟨all, fits⟩
    have count := all.length_eq
    rw [← arrived, List.length_map, List.length_map] at count
    have everything : (chosen.filter fun value => (image value).length ≤ bufLen) = chosen := by
      apply List.filter_eq_self.mpr
      intro value member
      have isMember := List.mem_map_of_mem (f := image) member
      rw [arrived] at isMember
      rcases List.mem_map.mp isMember with ⟨call, inCalls, same⟩
      rw [← same]
      exact decide_eq_true (fits call inCalls)
    rw [everything]
    exact subperm.perm_of_length_le count.ge

/-- An arrangement of some of the images is the image of an arrangement of some
of the values. -/
theorem exists_subperm_map {values : List γ} {arranged : List (List UInt8)}
    (subperm : arranged.Subperm (values.map image)) :
    ∃ chosen : List γ, chosen.Subperm values ∧ chosen.map image = arranged := by
  rcases subperm with ⟨images, same, inside⟩
  rcases List.sublist_map_iff.mp inside with ⟨inOrder, insideValues, rfl⟩
  rcases exists_perm_map same.symm with ⟨chosen, rearranged, isArranged⟩
  exact ⟨chosen, ⟨inOrder, rearranged.symm, insideValues⟩, isArranged⟩

end Chosen

/-! ### The packets of a version 1 series -/

namespace SinglePacket

/-- A packet without the load-balancer header. -/
def arrivedBytes (args : SendArgs) (cut : Cut) : List UInt8 :=
  reHeaderOld cut.first cut.last args.tick cut.counter args.version args.dataId ++ cut.data

theorem stripped_datagramOld (args : SendArgs) (cut : Cut) :
    stripped false (Version1.datagram args cut) = arrivedBytes args cut := by
  rw [stripped, if_neg Bool.false_ne_true, Version1.datagram, Version1.headers, arrivedBytes,
    List.append_assoc]
  exact List.drop_left' (lbHeader_length _ _ _ _)

/-- What is read from a packet. -/
def packetOf (args : SendArgs) (cut : Cut) : ReFieldsOld × List UInt8 :=
  (⟨Int32.ofInt args.version, cut.first, cut.last, args.dataId, cut.counter, args.tick⟩, cut.data)

theorem got_arrivedBytes {args : SendArgs} (version : 0 ≤ args.version ∧ args.version < 16)
    (host : ByteOrder) (dataBuf : Mem) (bufLen : Nat) {cut : Cut}
    (sized : cut.data.length ≤ 65500) :
    (readPacketRecvFromOld host dataBuf bufLen (.datagram (arrivedBytes args cut))).got =
      if (arrivedBytes args cut).length ≤ bufLen then some (packetOf args cut) else none := by
  have size : (arrivedBytes args cut).length = reHeaderBytesOld + cut.data.length := by
    rw [arrivedBytes, List.length_append, reHeaderOld_length]
  have isSmall : reHeaderBytesOld = 18 := rfl
  have short : (arrivedBytes args cut).length ≤ 65536 := by omega
  have whole : (arrivedBytes args cut).take 65536 = arrivedBytes args cut :=
    List.take_of_length_le short
  have held := (Memory.read_split
    (Memory.read_write_self (fun _ => 0) 0 (arrivedBytes args cut))).1
  rw [reHeaderOld_length] at held
  have parsed : parseReHeaderOld host (Complete.received (arrivedBytes args cut)) 0 =
      (packetOf args cut).1 := by
    rw [Complete.received, whole]
    exact parseReHeaderOld_eq held version.1 version.2
  have got := readPacket_got (fun pkt => parseReHeaderOld host pkt 0) dataBuf bufLen
    (reHeaderOld_length cut.first cut.last args.tick cut.counter args.version args.dataId)
    cut.data short
  rw [readPacketRecvFromOld, arrivedBytes, got]
  show (if (arrivedBytes args cut).length ≤ bufLen then
    some (parseReHeaderOld host (Complete.received (arrivedBytes args cut)) 0, cut.data)
    else none) = _
  rw [parsed]
  rfl

/-- The packets of one sequence: numbered from 0 on, the last of them marked. -/
structure Numbered (cuts : List Cut) : Prop where
  counter : ∀ index, (below : index < cuts.length) → cuts[index].counter.toNat = index
  last : ∀ index, (below : index < cuts.length) →
    (cuts[index].last = true ↔ index + 1 = cuts.length)

theorem numbered_cutsOf {pieces : List (List UInt8)} (few : pieces.length < 2 ^ 32) :
    Numbered (Job.cutsOf (fun _ => 1) true true 0 pieces) where
  counter := by
    intro index below
    have facts := Version1.cutsOf_getElem true true 0 pieces below
    rw [Job.cutsOf_length] at below
    rw [facts.1, UInt32.zero_add]
    exact UInt32.toNat_ofNat_of_lt' (show index < 2 ^ 32 by omega)
  last := by
    intro index below
    have facts := Version1.cutsOf_getElem true true 0 pieces below
    rw [facts.2.2, Job.cutsOf_length, Bool.true_and, beq_iff_eq]

/-- The caller has as many packets as the number of the last one says. -/
def Complete (packets : List (ReFieldsOld × List UInt8)) : Prop :=
  ∃ packet ∈ packets, packet.1.last = true ∧ packet.1.sequence.toNat + 1 = packets.length

/-- The packets by number. -/
def inOrder (packets : List (ReFieldsOld × List UInt8)) : List (ReFieldsOld × List UInt8) :=
  packets.mergeSort fun first second => decide (first.1.sequence ≤ second.1.sequence)

section

variable {args : SendArgs} {cuts : List Cut} (numbered : Numbered cuts)

include numbered

theorem Numbered.complete_iff {kept : List Cut} (subperm : kept.Subperm cuts) (nonempty : cuts ≠ []) :
    Complete (kept.map (packetOf args)) ↔ kept.Perm cuts := by
  constructor
  · intro complete
    rcases complete with ⟨packet, member, last, count⟩
    rcases List.mem_map.mp member with ⟨cut, inKept, rfl⟩
    rcases List.getElem_of_mem (subperm.subset inKept) with ⟨index, below, rfl⟩
    have number : cuts[index].counter.toNat + 1 = kept.length := by
      rw [List.length_map] at count
      exact count
    have ends := (numbered.last index below).mp last
    rw [numbered.counter index below, ends] at number
    exact subperm.perm_of_length_le number.le
  · intro same
    have positive := List.length_pos_iff.mpr nonempty
    have below : cuts.length - 1 < cuts.length := by omega
    have ends : cuts.length - 1 + 1 = cuts.length := by omega
    refine ⟨packetOf args cuts[cuts.length - 1], List.mem_map_of_mem
      (same.symm.subset (List.getElem_mem below)), (numbered.last _ below).mpr ends, ?_⟩
    show cuts[cuts.length - 1].counter.toNat + 1 = (kept.map (packetOf args)).length
    rw [numbered.counter _ below, List.length_map, same.length_eq, ends]

theorem Numbered.rising (args : SendArgs) :
    (cuts.map (packetOf args)).Pairwise fun first second =>
      first.1.sequence < second.1.sequence := by
  rw [List.pairwise_map, List.pairwise_iff_getElem]
  intro first second belowFirst belowSecond before
  rw [UInt32.lt_iff_toNat_lt]
  show cuts[first].counter.toNat < cuts[second].counter.toNat
  rw [numbered.counter first belowFirst, numbered.counter second belowSecond]
  exact before

/-- Sorting by number puts the packets back into the order of the series. -/
theorem Numbered.inOrder_eq {kept : List Cut} (same : kept.Perm cuts) :
    inOrder (kept.map (packetOf args)) = cuts.map (packetOf args) := by
  have arranged := List.mergeSort_perm (kept.map (packetOf args)) fun first second =>
    decide (first.1.sequence ≤ second.1.sequence)
  have perm := arranged.trans (same.map (packetOf args))
  have unique : ∀ first second, first ∈ inOrder (kept.map (packetOf args)) →
      second ∈ cuts.map (packetOf args) →
      decide (first.1.sequence ≤ second.1.sequence) = true →
      decide (second.1.sequence ≤ first.1.sequence) = true → first = second := by
    intro first second inFirst inSecond le ge
    have equal : first.1.sequence = second.1.sequence :=
      UInt32.le_antisymm (of_decide_eq_true le) (of_decide_eq_true ge)
    rcases List.getElem_of_mem (perm.subset inFirst) with ⟨one, belowOne, rfl⟩
    rcases List.getElem_of_mem inSecond with ⟨other, belowOther, rfl⟩
    have rising := List.pairwise_iff_getElem.mp (numbered.rising args)
    rcases Nat.lt_trichotomy one other with before | isSame | after
    · have less := rising one other belowOne belowOther before
      rw [equal] at less
      exact absurd less (UInt32.lt_irrefl _)
    · subst isSame
      rfl
    · have less := rising other one belowOther belowOne after
      rw [equal] at less
      exact absurd less (UInt32.lt_irrefl _)
  have sorted : (inOrder (kept.map (packetOf args))).Pairwise fun first second =>
      decide (first.1.sequence ≤ second.1.sequence) = true := by
    apply List.pairwise_mergeSort
    · intro one two three first second
      exact decide_eq_true (UInt32.le_trans (of_decide_eq_true first) (of_decide_eq_true second))
    · intro one two
      rw [Bool.or_eq_true, decide_eq_true_eq, decide_eq_true_eq]
      exact UInt32.le_total _ _
  exact perm.eq_of_pairwise unique sorted
    ((numbered.rising args).imp fun less => decide_eq_true (UInt32.le_of_lt less))

end

/-! ### A whole series -/

/-- No packet of a series carries more than a packet's payload. -/
theorem series_sized {limit : Nat} (large : 35 ≤ limit) {args : SendArgs} {first : Bool}
    {offset : UInt32} {portions : List Portion} {outcomes : List SendOutcome}
    (callable : ∀ portion ∈ portions, ∀ offset first last,
      Version1.Callable (Call.args ⟨portion, offset, first, last⟩ args))
    (series : Series (fun call outcome =>
      ∃ sender : OldSender, sender.Returns (.limited limit) (call.args args) outcome)
      first offset portions outcomes)
    (success : ∀ outcome ∈ outcomes, outcome.ret = 0) :
    ∀ datagram ∈ allSent outcomes, datagram.length ≤ headerBytesOld + 65500 := by
  have one {call : Call} {outcome : SendOutcome} (callable : Version1.Callable (call.args args))
      (returns : ∃ sender : OldSender, sender.Returns (.limited limit) (call.args args) outcome)
      (success : outcome.ret = 0) :
      ∀ datagram ∈ outcome.sent, datagram.length ≤ headerBytesOld + 65500 := by
    rcases returns with ⟨sender, returns⟩
    rcases (Version1.implements large callable sender).explains returns with
      ⟨final, ends, reports⟩
    rcases Job.sent_of_returns callable.bounds (Version1.tame_limitedJob large (call.args args))
      ends (reports.ret.symm.trans success) with ⟨pieces, sent⟩
    intro datagram member
    rw [reports.sent, sent.cuts] at member
    rcases List.mem_map.mp member with ⟨cut, inCuts, rfl⟩
    have isPiece := List.mem_map_of_mem (f := Cut.data) inCuts
    rw [Version1.map_data_cutsOf] at isPiece
    have bounds := callable.bounds
    have limited := (sent.sized _ isPiece).1
    have size : toSize (call.args args).maxUdpPayload = (call.args args).maxUdpPayload.toNat :=
      toSize_of_nonneg (by omega) (by omega)
    have payload : (Version1.limitedJob limit (call.args args)).maxUdpPayload =
        (call.args args).maxUdpPayload := rfl
    rw [payload, size] at limited
    show (Version1.headers (call.args args) cut.counter cut.first cut.last ++ cut.data).length ≤ _
    rw [List.length_append, Version1.headers_length]
    omega
  induction series with
  | last returns =>
      intro datagram member
      rw [allSent, List.flatMap_singleton] at member
      exact one (callable _ (by simp) _ _ _) returns (success _ (by simp)) datagram member
  | more returns _ inductionHypothesis =>
      intro datagram member
      rcases List.mem_append.mp member with here | later
      · exact one (callable _ (by simp) _ _ _) returns (success _ (by simp)) datagram here
      · exact inductionHypothesis
          (fun portion inRest => callable portion (List.mem_cons_of_mem _ inRest))
          (fun outcome inRest => success outcome (List.mem_cons_of_mem _ inRest)) datagram later

/-- Version 1 packets, read one at a time in any order, with any of them missing.
Those read are as many as the number of the one with the last mark says exactly
when the datagrams that arrived are all that were sent and each of them, its
header included, fits the buffer it was read into; and sorted by number they
are then the payload. -/
theorem readAll_complete_iff (limit : Nat) (large : 35 ≤ limit) (args : SendArgs)
    (portions : List Portion) (outcomes : List SendOutcome)
    (bounds : 1 ≤ args.maxUdpPayload ∧ args.maxUdpPayload ≤ 65500)
    (version : 0 ≤ args.version ∧ args.version < 16)
    (suitable : ∀ portion ∈ portions,
      headerBytesOld ≤ portion.dataBuffer ∧ portion.dataLen < 2 ^ 31)
    (series : Version1.SendsSeries (.limited limit) args portions outcomes)
    (success : ∀ outcome ∈ outcomes, outcome.ret = 0)
    (few : (allSent outcomes).length < 2 ^ 32)
    (host : ByteOrder) (bufLen : Nat) (calls : List (Mem × List UInt8))
    (arrived : (calls.map Prod.snd).Subperm ((allSent outcomes).map (stripped false))) :
    (Complete (readAll (readPacketRecvFromOld host) bufLen calls) ↔
      (calls.map Prod.snd).Perm ((allSent outcomes).map (stripped false)) ∧
        ∀ call ∈ calls, call.2.length ≤ bufLen) ∧
    (Complete (readAll (readPacketRecvFromOld host) bufLen calls) →
      (inOrder (readAll (readPacketRecvFromOld host) bufLen calls)).flatMap Prod.snd =
        payloadOf portions) := by
  have callable : ∀ portion ∈ portions, ∀ offset first last,
      Version1.Callable (Call.args ⟨portion, offset, first, last⟩ args) := fun portion member _ _ _ =>
    ⟨(suitable portion member).1, (suitable portion member).2, bounds⟩
  rcases Version1.series_cut large callable series success with ⟨pieces, cut⟩
  have limited := series_sized large callable series success
  have sent := cut.sent
  have data := Version1.map_data_cutsOf (fun _ => 1) true true 0 pieces
  rw [sent, List.length_map, Job.cutsOf_length] at few
  have numbered := numbered_cutsOf few
  have nonempty : Job.cutsOf (fun _ => 1) true true 0 pieces ≠ [] := by
    intro isNil
    rw [isNil, List.map_nil] at data
    exact cut.hasPieces data.symm
  rw [sent] at limited
  generalize Job.cutsOf (fun _ => 1) true true 0 pieces = cuts at sent data numbered nonempty limited
  have bytes : (allSent outcomes).map (stripped false) = cuts.map (arrivedBytes args) := by
    rw [sent, List.map_map]
    exact List.map_congr_left fun cut _ => stripped_datagramOld args cut
  have sized : ∀ cut ∈ cuts, cut.data.length ≤ 65500 := by
    intro cut member
    have whole := limited _ (List.mem_map_of_mem member)
    rw [Version1.datagram, List.length_append, Version1.headers_length] at whole
    omega
  rw [bytes] at arrived ⊢
  rcases exists_subperm_map arrived with ⟨chosen, subperm, isArrived⟩
  have read := readAll_eq bufLen (fun cut member dataBuf =>
    got_arrivedBytes version host dataBuf bufLen (sized cut (subperm.subset member))) isArrived
  have keptSome : (chosen.filter fun cut => (arrivedBytes args cut).length ≤ bufLen).Subperm cuts :=
    List.filter_sublist.subperm.trans subperm
  rw [read, numbered.complete_iff keptSome nonempty]
  refine ⟨kept_perm_iff subperm isArrived, fun all => ?_⟩
  rw [numbered.inOrder_eq all, List.flatMap_map]
  show cuts.flatMap Cut.data = payloadOf portions
  rw [← cut.data, ← data]
  rfl

/-- Two packets, the second of which arrives first, read into buffers that just
hold them. -/
def sampleCalls : List (Mem × List UInt8) :=
  [(fun _ => 9, stripped false (Version1.datagram Version1.sampleArgs ⟨1, false, true, [3, 4]⟩)),
    (fun _ => 0, stripped false (Version1.datagram Version1.sampleArgs ⟨0, true, false, [1, 2]⟩))]

theorem readAll_complete_iff_sample :
    Complete (readAll (readPacketRecvFromOld .big) 20 sampleCalls) ∧
      (inOrder (readAll (readPacketRecvFromOld .big) 20 sampleCalls)).flatMap Prod.snd =
        [1, 2, 3, 4] := by
  have arrived : (sampleCalls.map Prod.snd).Perm
      ((allSent [Version1.sampleOutcome]).map (stripped false)) := .swap _ _ _
  have both := readAll_complete_iff 36 (by decide) Version1.sampleArgs
    [⟨Version1.sampleArgs.memory, 34, 4, 0⟩] [Version1.sampleOutcome] (by decide) (by decide)
    (by decide) (.last ⟨.sendmsg, Version1.sampleOutcome_returns⟩) (by decide) (by decide) .big 20
    sampleCalls arrived.subperm
  have complete := both.1.mpr ⟨arrived, by decide⟩
  exact ⟨complete, both.2 complete⟩

/-! ### The packets of a version 2 series -/

/-- What is read from a packet. -/
def fieldsOf (packet : Packet) : RePointers × List UInt8 :=
  (⟨Int32.ofInt packet.version, packet.dataId, packet.offset, packet.length, packet.tick⟩,
    packet.payload)

theorem got_bytes (host : ByteOrder) (dataBuf : Mem) (bufLen : Nat) {packet : Packet}
    (wellFormed : packet.WellFormed) :
    (readPacketRecvFrom host dataBuf bufLen (.datagram packet.bytes)).got =
      if packet.bytes.length ≤ bufLen then some (fieldsOf packet) else none := by
  have fits := wellFormed.fits
  have isSmall : reHeaderBytes = 20 := rfl
  have size := Complete.bytes_length packet
  have short : packet.bytes.length ≤ 65536 := by omega
  have whole : packet.bytes.take 65536 = packet.bytes := List.take_of_length_le short
  have held := (Memory.read_split (Memory.read_write_self (fun _ => 0) 0 packet.bytes)).1
  rw [reHeader_length] at held
  have parsed : parseReHeaderPointers host (Complete.received packet.bytes) 0 =
      (fieldsOf packet).1 := by
    rw [Complete.received, whole]
    exact parseReHeaderPointers_reHeader held wellFormed.versionNonneg wellFormed.versionLt
  have got := readPacket_got (fun pkt => parseReHeaderPointers host pkt 0) dataBuf bufLen
    (reHeader_length packet.offset packet.length packet.tick packet.version packet.dataId
      packet.reserved) packet.payload short
  rw [readPacketRecvFrom, Packet.bytes, got]
  show (if packet.bytes.length ≤ bufLen then
    some (parseReHeaderPointers host (Complete.received packet.bytes) 0, packet.payload)
    else none) = _
  rw [parsed]
  rfl

/-- Where the data that was read belongs. -/
def placed (packets : List (RePointers × List UInt8)) : List (Placed UInt8) :=
  packets.map fun packet => ⟨packet.1.offset.toNat, packet.2⟩

theorem placed_fieldsOf (packets : List Packet) :
    placed (packets.map fieldsOf) = packets.map Packet.piece := by
  rw [placed, List.map_map]
  rfl

/-- Some packets of a transmission have all its bytes only when they are all of
them. -/
theorem weight_eq_iff {transmission : Transmission} {tick : UInt64} {dataId : UInt16}
    {kept : List Packet} (subperm : kept.Subperm (transmission.packets tick dataId)) :
    weight (kept.map Packet.piece) = transmission.payload.length ↔
      kept.Perm (transmission.packets tick dataId) := by
  have pieces := Transmission.map_piece_packets transmission tick dataId
  have total := weight_layout 0 transmission.chunks
  rw [← pieces] at total
  constructor
  · intro heavy
    rcases subperm with ⟨inside, same, sublist⟩
    have nodup : ((transmission.packets tick dataId).map Packet.piece).Nodup := by
      rw [pieces]
      exact layout_nodup 0 transmission.nonempty
    have weights := weight_perm (same.map Packet.piece)
    have blocks : ∀ piece ∈ (transmission.packets tick dataId).map Packet.piece,
        piece.block ≠ [] := by
      rw [pieces]
      exact fun piece member => transmission.nonempty _ (mem_layout_block member)
    have all := perm_of_weight_le ((sublist.map Packet.piece).nodup nodup)
      (sublist.map Packet.piece).subset blocks (by
        rw [total, weights, heavy]
        exact le_rfl)
    have count := all.length_eq
    rw [List.length_map, List.length_map] at count
    rw [← sublist.eq_of_length count]
    exact same.symm
  · intro same
    rw [weight_perm (same.map Packet.piece), total]
    rfl

/-- Version 2 packets, read one at a time in any order, with any of them missing.
The data read is as much as each of the headers says exactly when the datagrams
that arrived are all that were sent and each of them, its header included, fits
the buffer it was read into; and pasted at the offsets it is then the payload. -/
theorem readAll_total_iff (send : SendNewArgs)
    (payloadBounds : 1 ≤ send.maxUdpPayload ∧ send.maxUdpPayload ≤ 65500)
    (versionBounds : 0 ≤ send.version ∧ send.version < 16) (portions : List Portion)
    (portionsSome : portions ≠ []) (nonempty : ∀ portion ∈ portions, 0 < portion.dataLen)
    (fullLen : send.fullLen.toNat = (payloadOf portions).length) (outcomes : List SendOutcome)
    (series : SendNew.SendsSeries .accepting send portions outcomes)
    (host : ByteOrder) (bufLen : Nat) (calls : List (Mem × List UInt8))
    (arrived : (calls.map Prod.snd).Subperm
      ((allSent outcomes).map (stripped send.direct))) :
    (∀ packet ∈ readAll (readPacketRecvFrom host) bufLen calls,
      packet.1.length.toNat = (payloadOf portions).length) ∧
    (weight (placed (readAll (readPacketRecvFrom host) bufLen calls)) =
        (payloadOf portions).length ↔
      (calls.map Prod.snd).Perm ((allSent outcomes).map (stripped send.direct)) ∧
        ∀ call ∈ calls, call.2.length ≤ bufLen) ∧
    (weight (placed (readAll (readPacketRecvFrom host) bufLen calls)) =
        (payloadOf portions).length →
      ∀ memory, paste memory (placed (readAll (readPacketRecvFrom host) bufLen calls)) =
        memory.write 0 (payloadOf portions)) := by
  rcases series_transmission payloadBounds versionBounds portionsSome nonempty fullLen series with
    ⟨transmission, payload, wire⟩
  rw [wire] at arrived ⊢
  rcases exists_subperm_map arrived with ⟨chosen, subperm, isArrived⟩
  have wellFormed : ∀ packet ∈ chosen, packet.WellFormed := fun packet member =>
    Transmission.mem_wellFormed (subperm.subset member)
  have read := readAll_eq bufLen (fun packet member dataBuf =>
    got_bytes host dataBuf bufLen (wellFormed packet member)) isArrived
  have keptSome : (chosen.filter fun packet => packet.bytes.length ≤ bufLen).Subperm
      (transmission.packets send.tick send.dataId) := List.filter_sublist.subperm.trans subperm
  rw [read, placed_fieldsOf, ← payload, weight_eq_iff keptSome]
  refine ⟨?_, kept_perm_iff subperm isArrived, ?_⟩
  · intro packet member
    rcases List.mem_map.mp member with ⟨sent, inKept, rfl⟩
    exact Transmission.mem_length (keptSome.subset inKept)
  · intro all memory
    apply paste_eq_write memory
    rw [← Transmission.map_piece_packets transmission send.tick send.dataId]
    exact all.map Packet.piece

/-- The three packets of a series, the last of which arrives first. -/
def sampleReads : List (Mem × List UInt8) :=
  [(fun _ => 9, SendNew.datagram sampleSend 2 [3]), (fun _ => 0, SendNew.datagram sampleSend 0 [1]),
    (fun _ => 0, SendNew.datagram sampleSend 1 [2])]

theorem readAll_total_iff_sample :
    weight (placed (readAll (readPacketRecvFrom .big) 21 sampleReads)) = 3 ∧
      paste (fun _ => 0) (placed (readAll (readPacketRecvFrom .big) 21 sampleReads)) =
        Memory.write (fun _ => 0) 0 [1, 2, 3] := by
  have arrived : (sampleReads.map Prod.snd).Perm
      ((allSent sampleOutcomes).map (stripped sampleSend.direct)) :=
    (List.Perm.swap _ _ _).trans (.cons _ (.swap _ _ _))
  have all := readAll_total_iff sampleSend (by decide) (by decide) samplePortions (by decide)
    (by decide) (by decide) sampleOutcomes sampleSeries_sends .big 21 sampleReads arrived.subperm
  have total := all.2.1.mpr ⟨arrived, by decide⟩
  exact ⟨total, all.2.2 total fun _ => 0⟩

end SinglePacket

end Dift.Assemble
