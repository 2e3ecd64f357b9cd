import Dift.Foundation.Tiling
import Dift.Packetize.Copying

/-!
Owns `sendPacketizedBufferSendNew`, the copying sender of version 2 packets.
On a socket that refuses nothing it sends the consecutive pieces of its data,
each under its offset.
-/

namespace Dift.Packetize

open Dift.Foundation
open Dift.Wire

/-- The arguments only the version 2 copying sender has. -/
structure SendNewArgs extends SendArgs where
  fullLen : UInt32
  direct : Bool
  noConnect : Bool
  reserved : Int

namespace SendNew

def lbHeaderSize (args : SendNewArgs) : Nat :=
  if args.direct then 0 else lbHeaderBytes

def allHeadersSize (args : SendNewArgs) : Nat :=
  if args.direct then reHeaderBytes else headerBytes

/-- Write the headers into the packet array; a direct packet has no
load-balancer header. -/
def setHeaders (args : SendNewArgs) (buffer : Mem) (localOffset : UInt32) : Mem :=
  let buffer :=
    if args.direct then buffer
    else setLbMetadata args.host buffer 0 args.tick args.version args.protocol args.entropy
  setReMetadataReserved args.host buffer (lbHeaderSize args) localOffset args.fullLen args.tick
    args.version args.dataId args.reserved

/-- The headers as bytes. -/
def headers (args : SendNewArgs) (offset : UInt32) : List UInt8 :=
  (if args.direct then [] else lbHeader args.tick args.version args.protocol args.entropy) ++
    reHeader offset args.fullLen args.tick args.version args.dataId args.reserved

theorem headers_length (args : SendNewArgs) (offset : UInt32) :
    (headers args offset).length = allHeadersSize args := by
  cases direct : args.direct <;>
    simp [headers, allHeadersSize, direct, lbHeaderBytes, reHeaderBytes, headerBytes]

theorem setHeaders_eq (args : SendNewArgs) (buffer : Mem) (offset : UInt32) :
    setHeaders args buffer offset = buffer.write 0 (headers args offset) := by
  unfold setHeaders headers lbHeaderSize
  simp only [setLbMetadata_eq, setReMetadataReserved_eq]
  cases args.direct with
  | true => rfl
  | false =>
      have adjacent : lbHeaderBytes =
          0 + (lbHeader args.tick args.version args.protocol args.entropy).length := by simp
      simp only [Bool.false_eq_true, if_false]
      rw [adjacent, Memory.write_append]

def style (socket : Socket) (args : SendNewArgs) : Copying.Style where
  headersSize := allHeadersSize args
  setHeaders := fun buffer localOffset _ _ => setHeaders args buffer localOffset
  numbering := .byOffset
  call := fun attempts bytes =>
    if args.noConnect then socket.sendto attempts bytes else socket.send attempts bytes
  delayed := delayTick args.delay args.delayPrescale
  headers := fun offset _ _ => headers args offset
  headers_length := fun offset _ _ => headers_length args offset
  setHeaders_eq := fun buffer offset _ _ => setHeaders_eq args buffer offset

end SendNew

/-- The sender, for at most `fuel` rounds of its loop. -/
def sendPacketizedBufferSendNew (socket : Socket) (args : SendNewArgs) (fuel : Nat) :
    Option SendOutcome :=
  iterate (Copying.round (SendNew.style socket args) args.toSendArgs) fuel
    (Copying.start args.toSendArgs)

/-- A call of the sender ends with the given outcome. -/
def SendNewReturns (socket : Socket) (args : SendNewArgs) (outcome : SendOutcome) : Prop :=
  ∃ fuel, sendPacketizedBufferSendNew socket args fuel = some outcome

namespace SendNew

/-- The job of a call. -/
def job (socket : Socket) (args : SendNewArgs) : Job :=
  Copying.job (style socket args) args.toSendArgs

theorem implements (socket : Socket) (args : SendNewArgs) :
    (job socket args).Implements (SendNewReturns socket args) :=
  Copying.implements (style socket args) args.toSendArgs

/-- The headers and payload of one packet. -/
def datagram (args : SendNewArgs) (offset : UInt32) (payload : List UInt8) : List UInt8 :=
  headers args offset ++ payload

variable {socket : Socket} {args : SendNewArgs}

/-! ### A socket on which every send succeeds -/

/-- The datagrams of consecutive pieces of a buffer, the first at `offset`. -/
def datagrams (args : SendNewArgs) (offset : Nat) (pieces : List (List UInt8)) :
    List (List UInt8) :=
  (layout offset pieces).map fun piece => datagram args (UInt32.ofNat piece.offset) piece.block

theorem map_bytes_cutsOf (first last : Bool) (offset : Nat) (pieces : List (List UInt8)) :
    (Job.cutsOf UInt32.ofNat first last (UInt32.ofNat offset) pieces).map (job socket args).bytes =
      datagrams args offset pieces := by
  induction pieces generalizing first offset with
  | nil => rfl
  | cons piece rest inductionHypothesis =>
      cases rest with
      | nil =>
          simp only [Job.cutsOf, datagrams, layout, List.map_cons, List.map_nil]
          rfl
      | cons next others =>
          have tail := inductionHypothesis false (offset + piece.length)
          rw [UInt32.ofNat_add] at tail
          simp only [Job.cutsOf, List.map_cons, tail]
          rfl

theorem counterAfter_ofNat (counter : UInt32) (pieces : List (List UInt8)) :
    Job.counterAfter UInt32.ofNat counter pieces =
      counter + UInt32.ofNat pieces.flatten.length := by
  induction pieces generalizing counter with
  | nil => simp [Job.counterAfter]
  | cons piece rest inductionHypothesis =>
      have tail := inductionHypothesis (counter + UInt32.ofNat piece.length)
      rw [Job.counterAfter] at tail
      rw [Job.counterAfter, List.foldl_cons, tail, List.flatten_cons, List.length_append,
        UInt32.ofNat_add, UInt32.add_assoc]

/-- A call that sent everything: the datagrams are those of the pieces of its
data. -/
structure SentAll (args : SendNewArgs) (pieces : List (List UInt8)) (outcome : SendOutcome) :
    Prop where
  ret : outcome.ret = 0
  offset : outcome.offset = args.offset + UInt32.ofNat args.dataLen
  sent : outcome.sent = datagrams args args.offset.toNat pieces
  data : pieces.flatten = args.data
  sized : ∀ piece ∈ pieces, piece.length ≤ toSize args.maxUdpPayload ∧
    (0 < args.dataLen → piece ≠ [])

/-- A call that does what a successful job with a tame socket does has sent
everything. -/
theorem sentAll_of_reports
    (bounds : 1 ≤ args.maxUdpPayload ∧ args.maxUdpPayload ≤ 65500)
    (tame : (job socket args).Tame) {final : Job.Outcome}
    (returns : Returns (job socket args).round (job socket args).start final)
    (success : final.ret = 0) {outcome : SendOutcome}
    (reports : (job socket args).Reports outcome final) :
    ∃ pieces, SentAll args pieces outcome := by
  rcases Job.sent_of_returns bounds tame returns success with ⟨pieces, sent⟩
  have data : pieces.flatten = args.data := sent.data
  refine ⟨pieces, reports.ret.trans success, ?_, ?_, data, ?_⟩
  · have size : pieces.flatten.length = args.dataLen := by simp [data, SendArgs.data]
    rw [reports.offset, sent.offset, ← size]
    exact counterAfter_ofNat _ _
  · have place : UInt32.ofNat args.offset.toNat = (job socket args).offset :=
      UInt32.ofNat_toNat
    rw [reports.sent, sent.cuts, ← place]
    exact map_bytes_cutsOf _ _ _ _
  · intro piece member
    rcases sent.sized piece member with ⟨limit, hasBytes⟩
    refine ⟨limit, fun positive => hasBytes ?_⟩
    have size : args.data.length = args.dataLen := by simp [SendArgs.data]
    exact List.length_pos_iff.mp (by rw [← size] at positive; exact positive)

/-- With every send succeeding the call sends its data in pieces of at most
`maxUdpPayload` bytes and returns 0. -/
theorem returns_sentAll (args : SendNewArgs)
    (bounds : 1 ≤ args.maxUdpPayload ∧ args.maxUdpPayload ≤ 65500) :
    ∃ pieces outcome, SendNewReturns .accepting args outcome ∧ SentAll args pieces outcome := by
  have accepts : ∀ attempts bytes, (job .accepting args).answer attempts bytes = none := by
    intro attempts bytes
    simp [job, Copying.job, style, Socket.accepting]
  have tame : (job .accepting args).Tame := fun attempts bytes refused =>
    absurd (accepts attempts bytes) refused
  rcases Job.exists_returns bounds tame with ⟨final, returns⟩
  rcases (implements .accepting args).completes returns with ⟨outcome, ends, reports⟩
  rcases sentAll_of_reports bounds tame returns
    (Job.ret_of_accepting accepts returns) reports with ⟨pieces, all⟩
  exact ⟨pieces, outcome, ends, all⟩

/-- An empty buffer is sent as one datagram that holds only headers. -/
theorem returns_empty (args : SendNewArgs) (empty : args.dataLen = 0) :
    ∃ outcome, SendNewReturns .accepting args outcome ∧
      outcome.sent = [datagram args args.offset []] := by
  have accepts (attempts : Nat) (bytes : List UInt8) :
      (style .accepting args).call attempts bytes = none := by
    simp [style, Socket.accepting]
  have nothing : (Copying.start args.toSendArgs).count = 0 := by
    simp [Copying.State.count, Copying.start, empty, bytesToWrite]
  have first : Copying.round (style .accepting args) args.toSendArgs
      (Copying.start args.toSendArgs) =
      .again ((Copying.start args.toSendArgs).advance (style .accepting args) args.toSendArgs) := by
    rw [Copying.round, if_pos (.inl rfl), accepts]
  have second : Copying.round (style .accepting args) args.toSendArgs
      ((Copying.start args.toSendArgs).advance (style .accepting args) args.toSendArgs) =
      .leave ((Copying.start args.toSendArgs).advance (style .accepting args)
        args.toSendArgs).success := by
    rw [Copying.round, if_neg (by simp [Copying.State.advance, Copying.start, empty])]
  refine ⟨_, (returns_iff_of_again first).mpr (.of_leave second), ?_⟩
  show [] ++ [Copying.handed (style .accepting args) args.toSendArgs
    (Copying.start args.toSendArgs)] = _
  rw [Copying.handed_eq, nothing]
  rfl

end SendNew

end Dift.Packetize
