import Dift.Assemble.Allocated
import Dift.Assemble.RoundTrip
import Dift.Packetize.FastNew

/-!
Owns the divisions of the two version 2 receivers. With a prescale the only one
that can fail is the guess at the number of packets, by the payload size of a
first read: a call divides by zero exactly when it reads a datagram without data
while `veryFirstRead` is set. An empty buffer is sent as such a datagram, so that
no call ever receives it.
-/

namespace Dift.Assemble

open Dift.Foundation
open Dift.Wire
open Dift.Packetize

theorem Complete.arrivedPayload_eq_nil_iff {bytes : List UInt8} :
    arrivedPayload bytes = [] ↔ ¬ reHeaderBytes < bytes.length := by
  rw [← List.length_eq_zero_iff, arrivedPayload_length]
  unfold reHeaderBytes
  omega

/-- A datagram that arrives at a first read holds data. -/
def FirstHasData (state : Complete.State) (recv : Recv) : Prop :=
  state.veryFirstRead = true → recv.HasData

instance (state : Complete.State) (recv : Recv) : Decidable (FirstHasData state recv) := by
  unfold FirstHasData
  infer_instance

/-! ### The receiver with a given buffer -/

namespace Complete

variable {args : CompleteArgs} (prescale : args.tickPrescale ≠ 0)

include prescale

theorem finish_ne_divideByZero (state : State) (header : ReFields) :
    finish args state header ≠ .divideByZero := by
  unfold finish
  cases given : state.stats with
  | none => simp
  | some stats =>
      unfold finishStats
      split_ifs <;> simp

theorem copyData_ne_divideByZero (state : State) (header : ReFields) (payload : List UInt8) :
    copyData args state header payload ≠ .leave .divideByZero := by
  by_cases room : header.offset.toNat + payload.length ≤ args.bufLen
  · rw [copyData_eq state room]
    split_ifs
    · intro divides
      exact finish_ne_divideByZero prescale _ _ (Round.leave.inj divides)
    · simp
  · rw [copyData, if_pos (not_le.mp room)]
    simp [State.error]

theorem handle_divideByZero_iff (state : State) (header : ReFields) (payload : List UInt8) :
    handle args state header payload = .leave .divideByZero ↔
      state.veryFirstRead = true ∧ payload = [] := by
  rw [← plan_divide_iff state header payload, handle_eq]
  cases plan state header payload with
  | divide => simp [Plan.carryOut]
  | pass next => simp [Plan.carryOut]
  | copy ready => simp [Plan.carryOut, copyData_ne_divideByZero prescale]

theorem firstHasData_iff {recv : Recv} (holds : recv.HoldsHeader) (state : State) :
    FirstHasData state recv ↔ round args state recv ≠ .leave .divideByZero := by
  cases recv with
  | failed => simp [FirstHasData, Recv.HasData, round, State.error]
  | datagram bytes =>
      rw [round_datagram args state holds, Ne, handle_divideByZero_iff prescale,
        arrivedPayload_eq_nil_iff]
      simp [FirstHasData, Recv.HasData]

end Complete

/-! ### The receiver that allocates -/

namespace Allocated

/-- The call gets as far as its loop: there are pointers to write to, and a
buffer to start with. -/
def Begins (args : AllocatedArgs) : Prop :=
  args.nullArgs = false ∧
    (firstAllocateBuf args = true → args.allocates (firstBufLen args) = true)

theorem runs_of_begins {args : AllocatedArgs} (begins : Begins args) (socket : List Recv) :
    getCompleteAllocatedBuffer args socket = feed (round args) (start args) socket := by
  rcases begins with ⟨pointers, memory⟩
  have noRefusal : (firstAllocateBuf args && !args.allocates (firstBufLen args)) = false := by
    cases needs : firstAllocateBuf args with
    | false => rfl
    | true => simp [memory needs]
  simp [getCompleteAllocatedBuffer, pointers, noRefusal]

/-- A call that does not begin returns an error. -/
theorem returned_of_not_begins {args : AllocatedArgs} (notBegins : ¬ Begins args)
    (socket : List Recv) :
    ∃ outcome, getCompleteAllocatedBuffer args socket = .left (.returned outcome) socket := by
  unfold getCompleteAllocatedBuffer
  split_ifs with isNull refused
  · exact ⟨_, rfl⟩
  · exact ⟨_, rfl⟩
  · exfalso
    apply notBegins
    constructor
    · simpa using isNull
    · intro needs
      simpa [needs] using refused

variable {args : AllocatedArgs} (prescale : args.tickPrescale ≠ 0)

include prescale

theorem finish_ne_divideByZero (state : State) (header : ReFields) :
    finish args state header ≠ .divideByZero := by
  have whole := Complete.finish_ne_divideByZero prescale state.toState header
  unfold finish
  split
  · simp
  · exact absurd ‹_› whole

theorem writeData_ne_divideByZero (state : State) (header : ReFields) (payload : List UInt8) :
    writeData args state header payload ≠ .leave .divideByZero := by
  by_cases room : header.offset.toNat + payload.length ≤ state.bufLen
  · rw [show state = carry state.toState state.dataBuf state.bufLen state.allocateBuf from rfl,
      writeData_eq _ room]
    split_ifs
    · intro divides
      exact finish_ne_divideByZero prescale _ _ (Round.leave.inj divides)
    · simp
  · rw [writeData, if_pos (not_le.mp room)]
    simp

theorem copyData_ne_divideByZero (state : State) (header : ReFields) (payload : List UInt8) :
    copyData args state header payload ≠ .leave .divideByZero := by
  unfold copyData
  dsimp only
  split_ifs
  · exact writeData_ne_divideByZero prescale _ _ _
  · simp [State.error]
  · exact writeData_ne_divideByZero prescale _ _ _

theorem handle_divideByZero_iff (state : State) (header : ReFields) (payload : List UInt8) :
    handle args state header payload = .leave .divideByZero ↔
      state.veryFirstRead = true ∧ payload = [] := by
  rw [← Complete.plan_divide_iff state.toState header payload, handle_eq_self]
  cases Complete.plan state.toState header payload with
  | divide => simp [carryOut]
  | pass next => simp [carryOut]
  | copy ready => simp [carryOut, copyData_ne_divideByZero prescale]

theorem firstHasData_iff {recv : Recv} (holds : recv.HoldsHeader) (state : State) :
    FirstHasData state.toState recv ↔ round args state recv ≠ .leave .divideByZero := by
  cases recv with
  | failed => simp [FirstHasData, Recv.HasData, round, State.error]
  | datagram bytes =>
      rw [round_datagram state holds, Ne, handle_divideByZero_iff prescale,
        Complete.arrivedPayload_eq_nil_iff]
      simp [FirstHasData, Recv.HasData]

theorem divides_iff {socket : List Recv} (hold : ∀ recv ∈ socket, recv.HoldsHeader) :
    (∀ rest, getCompleteAllocatedBuffer args socket ≠ .left .divideByZero rest) ↔
      (Begins args →
        Along (round args) (fun state => FirstHasData state.toState) (start args) socket) := by
  rw [along_iff_ne_left AllocatedExit.divideByZero
    (fun recv member state => firstHasData_iff prescale (hold recv member) state)]
  by_cases begins : Begins args
  · rw [runs_of_begins begins]
    exact ⟨fun never _ => never, fun never => never begins⟩
  · rcases returned_of_not_begins begins socket with ⟨outcome, returns⟩
    rw [returns]
    simp [begins]

end Allocated

/-! ### The empty buffer -/

/-- Every call that reads these datagrams divides by zero at once. -/
def Divide (arrivals : List Recv) : Prop :=
  (∀ (receive : CompleteArgs) (rest : List Recv),
    getCompletePacketizedBuffer receive (arrivals ++ rest) = .left .divideByZero rest) ∧
  ∀ (receive : AllocatedArgs) (rest : List Recv), Allocated.Begins receive →
    getCompleteAllocatedBuffer receive (arrivals ++ rest) = .left .divideByZero rest

/-- A first datagram that is a header without data makes every call divide. -/
theorem divide_header {bytes : List UInt8} (size : bytes.length = reHeaderBytes) :
    Divide [.datagram bytes] := by
  have isNil : Complete.arrivedPayload bytes = [] :=
    Complete.arrivedPayload_eq_nil_iff.mpr (by rw [size]; exact lt_irrefl _)
  constructor
  · intro receive rest
    have step : Complete.round receive (Complete.start receive) (.datagram bytes) =
        .leave .divideByZero := by
      rw [Complete.round_datagram receive _ size.ge, isNil]
      rfl
    exact feed_cons_of_leave step rest
  · intro receive rest begins
    have step : Allocated.round receive (Allocated.start receive) (.datagram bytes) =
        .leave .divideByZero := by
      rw [Allocated.round_datagram _ size.ge, isNil]
      rfl
    rw [Allocated.runs_of_begins begins]
    exact feed_cons_of_leave step rest

theorem divide_empty (args : SendNewArgs) :
    Divide ([SendNew.datagram args args.offset []].map (delivered args.direct)) := by
  apply divide_header
  rw [stripped_datagram, List.append_nil, reHeader_length]

/-- When the receivers divide by zero. On datagrams that hold a header and with
a prescale a call never does exactly when no datagram without data arrives at a
first read; and the datagram that both senders emit for an empty buffer makes
every call divide that reads it first, so that none receives it. -/
theorem divideByZero_iff (args : CompleteArgs) (allocated : AllocatedArgs) (socket : List Recv)
    (atLeast : 1 ≤ args.tickPrescale) (alsoAtLeast : 1 ≤ allocated.tickPrescale)
    (hold : ∀ recv ∈ socket, recv.HoldsHeader) :
    ((∀ rest, getCompletePacketizedBuffer args socket ≠ .left .divideByZero rest) ↔
      Along (Complete.round args) FirstHasData (Complete.start args) socket) ∧
    ((∀ rest, getCompleteAllocatedBuffer allocated socket ≠ .left .divideByZero rest) ↔
      (Allocated.Begins allocated → Along (Allocated.round allocated)
        (fun state => FirstHasData state.toState) (Allocated.start allocated) socket)) ∧
    (∀ send : SendNewArgs, send.dataLen = 0 →
      (∃ outcome, SendNewReturns .accepting send outcome) ∧
      ∀ outcome, SendNewReturns .accepting send outcome →
        Divide (outcome.sent.map (delivered send.direct))) ∧
    (∀ send : FastNewArgs, send.dataLen = 0 →
      (∃ outcome, FastNewReturns .accepting send outcome) ∧
      ∀ outcome, FastNewReturns .accepting send outcome →
        Divide (outcome.sent.map (delivered false))) := by
  have positive {prescale : UInt32} (atLeast : 1 ≤ prescale) : prescale ≠ 0 := by
    rintro rfl
    exact absurd atLeast (by decide)
  refine ⟨?_, ?_, ?_, ?_⟩
  · exact (along_iff_ne_left _ (fun recv member state =>
      Complete.firstHasData_iff (positive atLeast) (hold recv member) state) _).symm
  · exact Allocated.divides_iff (positive alsoAtLeast) hold
  · intro send empty
    rcases SendNew.returns_empty send empty with ⟨expected, returns, sent⟩
    constructor
    · exact ⟨expected, returns⟩
    · intro outcome other
      rw [Returns.unique other returns, sent]
      exact divide_empty send
  · intro send empty
    rcases FastNew.returns_empty send empty with ⟨expected, returns, sent⟩
    constructor
    · exact ⟨expected, returns⟩
    · intro outcome other
      rw [Returns.unique other returns, sent]
      exact divide_empty send.copying

/-- A call of the copying sender with an empty buffer. -/
def emptySend : SendNewArgs :=
  { sampleSend with dataLen := 0, fullLen := 0 }

/-- A call of the in-place sender with an empty buffer. -/
def emptyFast : FastNewArgs :=
  { sampleSend.toSendArgs with dataLen := 0, fullLen := 0 }

theorem divideByZero_sample :
    (∀ rest, getCompletePacketizedBuffer Allocated.sampleArgs.toCompleteArgs
        [Allocated.sampleDatagram 0 2 1] ≠ .left .divideByZero rest) ∧
      (∀ rest, getCompleteAllocatedBuffer Allocated.sampleArgs
        [Allocated.sampleDatagram 0 2 1] ≠ .left .divideByZero rest) ∧
      (∃ outcome, SendNewReturns .accepting emptySend outcome) ∧
      ∃ outcome, FastNewReturns .accepting emptyFast outcome := by
  have all := divideByZero_iff Allocated.sampleArgs.toCompleteArgs Allocated.sampleArgs
    [Allocated.sampleDatagram 0 2 1] (by decide) (by decide) (by decide +kernel)
  refine ⟨?_, ?_, (all.2.2.1 emptySend rfl).1, (all.2.2.2 emptyFast rfl).1⟩
  · exact all.1.mpr (by decide +kernel)
  · exact all.2.1.mpr fun _ => by decide +kernel

/-- The datagram that the copying sender emits for an empty buffer holds a
header, and both receivers divide by zero. -/
theorem emptySend_divides :
    ∃ outcome, SendNewReturns .accepting emptySend outcome ∧
      (∀ recv ∈ outcome.sent.map (delivered emptySend.direct), recv.HoldsHeader) ∧
      getCompletePacketizedBuffer Allocated.sampleArgs.toCompleteArgs
        (outcome.sent.map (delivered emptySend.direct)) = .left .divideByZero [] ∧
      getCompleteAllocatedBuffer Allocated.sampleArgs
        (outcome.sent.map (delivered emptySend.direct)) = .left .divideByZero [] := by
  rcases SendNew.returns_empty emptySend rfl with ⟨outcome, returns, sent⟩
  have divide := divide_empty emptySend
  refine ⟨outcome, returns, ?_, ?_, ?_⟩
  · rw [sent]
    decide +kernel
  · rw [sent]
    exact divide.1 _ []
  · rw [sent]
    exact divide.2 _ [] ⟨rfl, fun _ => rfl⟩

end Dift.Assemble
