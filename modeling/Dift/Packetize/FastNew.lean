import Dift.Packetize.InPlace
import Dift.Packetize.SendNew

/-!
Owns `sendPacketizedBufferFastNew`, the in-place sender of version 2 packets,
and the theorem that on a socket with a size limit it does what the copying
sender does on an unmodified copy of the buffer.
-/

namespace Dift.Packetize

open Dift.Foundation
open Dift.Wire

/-- The arguments of the in-place sender of version 2 packets. -/
structure FastNewArgs extends SendArgs where
  fullLen : UInt32

namespace FastNew

/-- The version 2 header; its number is the offset of the data. -/
def variant (args : FastNewArgs) : Variant where
  reBytes := reHeaderBytes
  setRe := fun memory buffer counter _ _ =>
    setReMetadata args.host memory buffer counter args.fullLen args.tick args.version args.dataId
  numbering := .byOffset
  re := fun counter _ _ => reHeader counter args.fullLen args.tick args.version args.dataId 0
  re_length := fun _ _ _ => reHeader_length _ _ _ _ _ _
  setRe_eq := fun _ _ _ _ _ => setReMetadata_eq _ _ _ _ _ _ _ _

end FastNew

/-- The sender, for at most `fuel` rounds of its loop. -/
def sendPacketizedBufferFastNew (socket : Socket) (args : FastNewArgs) (fuel : Nat) :
    Option InPlace.Outcome :=
  iterate (InPlace.round (FastNew.variant args) socket args.toSendArgs) fuel
    (InPlace.start args.toSendArgs)

/-- A call of the sender ends with the given outcome. -/
def FastNewReturns (socket : Socket) (args : FastNewArgs) (outcome : InPlace.Outcome) : Prop :=
  ∃ fuel, sendPacketizedBufferFastNew socket args fuel = some outcome

/-- The call of the copying sender with the same arguments. -/
def FastNewArgs.copying (args : FastNewArgs) : SendNewArgs :=
  { args.toSendArgs with
    fullLen := args.fullLen
    direct := false
    noConnect := false
    reserved := 0 }

namespace FastNew

/-- The copying sender's job serves the in-place call. -/
theorem serves_job (socket : Socket) (args : FastNewArgs) :
    InPlace.Serves (variant args) socket args.toSendArgs (SendNew.job socket args.copying) where
  data := rfl
  offset := rfl
  payload := rfl
  firstBuffer := rfl
  lastBuffer := rfl
  headers := by
    intro counter first last
    simp [SendNew.job, Copying.job, SendNew.style, SendNew.headers, FastNewArgs.copying, variant]
  advance := rfl
  answer := by
    funext attempts bytes
    simp [SendNew.job, Copying.job, SendNew.style, FastNewArgs.copying]

/-- A socket that takes one byte of data takes small datagrams. -/
theorem tame_limited {limit : Nat} (large : 37 ≤ limit) (args : FastNewArgs) :
    (SendNew.job (.limited limit) args.copying).Tame := by
  intro attempts bytes refused
  have headers : (SendNew.job (.limited limit) args.copying).headerBytes = 36 := rfl
  rw [headers]
  by_contra short
  apply refused
  simp only [SendNew.job, Copying.job, SendNew.style, FastNewArgs.copying, Socket.limited,
    acceptUpTo]
  rw [if_pos (by omega)]
  rfl

/-- An empty buffer is sent as one datagram that holds only headers. -/
theorem returns_empty (args : FastNewArgs) (empty : args.dataLen = 0) :
    ∃ outcome, FastNewReturns .accepting args outcome ∧
      outcome.sent = [SendNew.datagram args.copying args.offset []] := by
  have nothing : (InPlace.start args.toSendArgs).count = 0 := by
    simp [InPlace.State.count, InPlace.start, empty, bytesToWrite]
  have first : InPlace.round (variant args) .accepting args.toSendArgs
      (InPlace.start args.toSendArgs) =
      .again ((InPlace.start args.toSendArgs).advance (variant args) args.toSendArgs) := by
    rw [InPlace.round, if_pos (.inl rfl)]
    rfl
  have second : InPlace.round (variant args) .accepting args.toSendArgs
      ((InPlace.start args.toSendArgs).advance (variant args) args.toSendArgs) =
      .leave ((InPlace.start args.toSendArgs).advance (variant args) args.toSendArgs).success := by
    rw [InPlace.round, if_neg (by simp [InPlace.State.advance, InPlace.start, empty])]
  refine ⟨_, (returns_iff_of_again first).mpr (.of_leave second), ?_⟩
  show [] ++ [InPlace.handed (variant args) args.toSendArgs (InPlace.start args.toSendArgs)] = _
  rw [InPlace.handed_first rfl rfl, nothing]
  rfl

end FastNew

/-- The zero-copy sender refines the copying sender. With the 36 bytes before
the buffer as scratch, both calls end with the same datagrams, return value,
offset and packet count; the caller's memory changes only where headers were
written, and with a payload that never fell below the headers' 36 bytes all of
them are inside the buffer. -/
theorem sendPacketizedBufferFastNew_refines (limit : Nat) (large : 37 ≤ limit)
    (args : FastNewArgs) (scratch : headerBytes ≤ args.dataBuffer)
    (bounds : 1 ≤ args.maxUdpPayload ∧ args.maxUdpPayload ≤ 65500) :
    ∃ fast send, FastNewReturns (.limited limit) args fast ∧
      SendNewReturns (.limited limit) args.copying send ∧
      fast.sent = send.sent ∧ fast.ret = send.ret ∧ fast.offset = send.offset ∧
      fast.packetsSent = send.packetsSent ∧
      (∀ address, (∀ range ∈ fast.written,
          ¬ (range.1 ≤ address ∧ address < range.1 + range.2)) →
        fast.memory address = args.memory address) ∧
      (36 ≤ fast.maxUdpPayload → ∀ range ∈ fast.written,
        args.dataBuffer ≤ range.1 ∧ range.1 + range.2 ≤ args.dataBuffer + args.dataLen) := by
  have tame := FastNew.tame_limited large args
  rcases Job.exists_returns bounds tame with ⟨final, returns⟩
  obtain ⟨send, sendReturns, sendReports⟩ :=
    (SendNew.implements (.limited limit) args.copying).completes returns
  have room : lbHeaderBytes + (FastNew.variant args).reBytes ≤ args.dataBuffer := scratch
  obtain ⟨-, ⟨fast, fastReturns, rfl⟩, fastReports⟩ :=
    (InPlace.implements (FastNew.serves_job (.limited limit) args) room tame).completes returns
  have confined := InPlace.returns_confined room (by omega) fastReturns
  refine ⟨fast, send, fastReturns, sendReturns, ?_, ?_, ?_, ?_, confined.framed, ?_⟩
  · rw [fastReports.sent, sendReports.sent]
  · rw [fastReports.ret, sendReports.ret]
  · rw [fastReports.offset, sendReports.offset]
  · rw [fastReports.packetsSent, sendReports.packetsSent]
  · intro atLeast range member
    rcases confined.ranged range member with ⟨begins, ends⟩
    have upper := confined.payload.2
    have size : toSize fast.maxUdpPayload = fast.maxUdpPayload.toNat :=
      toSize_of_nonneg (by omega) (by omega)
    have headers : lbHeaderBytes + (FastNew.variant args).reBytes = 36 := rfl
    rw [size, headers] at begins
    exact ⟨by omega, ends⟩

/-- A hundred bytes behind 36 bytes of scratch, with a payload of 90 on a
socket that takes 80 bytes. -/
def sampleFastNew : FastNewArgs where
  host := .little
  memory := fun address => UInt8.ofNat address
  stack := fun _ => 0
  dataBuffer := 36
  dataLen := 100
  maxUdpPayload := 90
  tick := 5
  protocol := 1
  entropy := 0
  version := 2
  dataId := 7
  offset := 0
  delay := 0
  delayPrescale := 1
  delayCounter := 0
  firstBuffer := true
  lastBuffer := true
  fullLen := 100

theorem sendPacketizedBufferFastNew_refines_sample :
    ∃ fast send, FastNewReturns (.limited 80) sampleFastNew fast ∧
      SendNewReturns (.limited 80) sampleFastNew.copying send ∧
      fast.sent = send.sent ∧ fast.ret = send.ret := by
  obtain ⟨fast, send, fastReturns, sendReturns, sent, ret, -⟩ :=
    sendPacketizedBufferFastNew_refines 80 (by decide) sampleFastNew (by decide) (by decide)
  exact ⟨fast, send, fastReturns, sendReturns, sent, ret⟩

end Dift.Packetize
