import Dift.Assemble.Complete

/-!
Owns `getCompleteAllocatedBuffer`, the near copy of `getCompletePacketizedBuffer`
that allocates its buffer and grows it. A buffer that is too small is doubled
once, and the copy follows without another test: the call does what the other
receiver does with a large buffer exactly as long as every packet it copies ends
within twice the capacity of the moment.
-/

namespace Dift.Assemble

open Dift.Foundation
open Dift.Wire

def outOfMem : Int := -6
def badArg : Int := -7

/-- `MAX_EJFAT_MTU`. -/
def maxEjfatMtu : Nat := 9978

/-- The arguments of a call. `bufLen` is `*pBufLen`, `given` says that
`*dataBufAlloc` is not null and `nullArgs` that one of the two pointers is.
`allocates` answers `malloc` and `realloc`, and `fresh` is what the memory they
return holds. -/
structure AllocatedArgs extends CompleteArgs where
  nullArgs : Bool
  given : Bool
  fresh : Mem
  allocates : Nat → Bool

/-- What a call leaves behind: besides what the other receiver does, `*pBufLen`
and whether `*dataBufAlloc` is a buffer that the call has allocated. -/
structure AllocatedOutcome extends Outcome where
  pBufLen : Nat
  newBuf : Bool

/-- How a call ends. A copy that goes beyond the end of the buffer is undefined
behaviour. -/
inductive AllocatedExit where
  | returned (outcome : AllocatedOutcome)
  | divideByZero
  | outOfBounds

namespace Allocated

/-- The variables that live across rounds. `dataBuf` beyond `bufLen` is what
`realloc` will find there. -/
structure State extends Complete.State where
  bufLen : Nat
  allocateBuf : Bool

/-- The length of the buffer before the first packet. -/
def firstBufLen (args : AllocatedArgs) : Nat :=
  if args.given then
    if args.bufLen < maxEjfatMtu then maxEjfatMtu else args.bufLen
  else if args.bufLen = 0 then 100000
  else if args.bufLen < maxEjfatMtu then maxEjfatMtu
  else args.bufLen

/-- Whether the call does not work in the caller's buffer. -/
def firstAllocateBuf (args : AllocatedArgs) : Bool :=
  !args.given || args.bufLen < maxEjfatMtu

/-- The memory that the call starts with. -/
def firstBuf (args : AllocatedArgs) : Mem :=
  if firstAllocateBuf args then args.fresh else args.dataBuf

def start (args : AllocatedArgs) : State where
  toState := { Complete.start args.toCompleteArgs with dataBuf := firstBuf args }
  bufLen := firstBufLen args
  allocateBuf := firstAllocateBuf args

/-- Return an error: the value-result arguments are not changed. -/
def State.error (args : AllocatedArgs) (state : State) (code : Int) : AllocatedExit :=
  .returned {
    ret := code
    tick := args.tick
    dataId := none
    dataBuf := state.dataBuf
    stats := state.stats
    pBufLen := args.bufLen
    newBuf := false }

/-- All data is there: the same as in the other receiver, and the buffer and its
length are passed back. -/
def finish (args : AllocatedArgs) (state : State) (header : ReFields) : AllocatedExit :=
  match Complete.finish args.toCompleteArgs state.toState header with
  | .returned outcome => .returned {
      toOutcome := outcome
      pBufLen := state.bufLen
      newBuf := state.allocateBuf }
  | .divideByZero => .divideByZero

/-- The `memcpy` and the rest of the round. -/
def writeData (args : AllocatedArgs) (state : State) (header : ReFields) (payload : List UInt8) :
    Round State AllocatedExit :=
  if header.offset.toNat + payload.length > state.bufLen then .leave .outOfBounds
  else
    let state := { state with
      dataBuf := state.dataBuf.write header.offset.toNat payload
      totalBytesRead := state.totalBytesRead + payload.length
      veryFirstRead := false
      prevTick := header.tick
      pktCount := state.pktCount + 1 }
    if state.totalBytesRead ≥ (header.length.toNat : Int) then .leave (finish args state header)
    else .again state

/-- From the room check to the end of the round: not enough room doubles the
size of the buffer, as a `size_t`. -/
def copyData (args : AllocatedArgs) (state : State) (header : ReFields) (payload : List UInt8) :
    Round State AllocatedExit :=
  if header.offset.toNat + payload.length > state.bufLen then
    let bufLen := state.bufLen * 2 % 2 ^ 64
    if args.allocates bufLen then
      writeData args { state with bufLen := bufLen, allocateBuf := true } header payload
    else .leave (state.error args outOfMem)
  else writeData args state header payload

/-- The tests on the tick, for a packet whose source is accepted. -/
def sortTick (args : AllocatedArgs) (state : State) (prevLength prevTotalPkts : UInt32)
    (header : ReFields) (payload : List UInt8) : Round State AllocatedExit :=
  if header.tick ≠ state.prevTick then
    if header.offset ≠ 0 then
      .again { state with
        veryFirstRead := true
        dumpTick := true
        prevTick := header.tick
        discardedPackets := state.discardedPackets + state.totalPkts.toNat
        discardedBytes := state.discardedBytes + header.length.toNat
        discardedBufs := state.discardedBufs + 1 }
    else if state.veryFirstRead then
      copyData args { state with dumpTick := false } header payload
    else
      copyData args { state with
        dumpTick := false
        pktCount := 0
        totalBytesRead := 0
        srcId := header.dataId
        discardedPackets := state.discardedPackets + prevTotalPkts.toNat
        discardedBytes := state.discardedBytes + prevLength.toNat
        discardedBufs := state.discardedBufs + 1 } header payload
  else if state.dumpTick then
    .again { state with veryFirstRead := true }
  else copyData args state header payload

/-- A packet that holds a header. -/
def handle (args : AllocatedArgs) (state : State) (header : ReFields) (payload : List UInt8) :
    Round State AllocatedExit :=
  let parsed := { state with length := header.length }
  if state.veryFirstRead then
    if payload.length = 0 then .leave .divideByZero
    else
      sortTick args { parsed with
        totalBytesRead := 0
        pktCount := 0
        srcId := header.dataId
        totalPkts := UInt32.ofNat
          ((header.length.toNat + (payload.length - 1)) / payload.length) }
        state.length state.totalPkts header payload
  else if header.dataId ≠ state.srcId then
    .again { parsed with
      stats := state.stats.map fun stats =>
        { stats with badSrcIdPackets := stats.badSrcIdPackets + 1 } }
  else sortTick args parsed state.length state.totalPkts header payload

/-- One round of the loop. -/
def round (args : AllocatedArgs) (state : State) : Recv → Round State AllocatedExit
  | .failed => .leave (state.error args recvMsg)
  | .datagram bytes =>
      let bytesRead := (bytes.take 65536).length
      if bytesRead < reHeaderBytes then .leave (state.error args internalError)
      else
        handle args state (parseReHeader args.host (Complete.received bytes) 0)
          ((Complete.received bytes).read reHeaderBytes (bytesRead - reHeaderBytes))

end Allocated

/-- A call reading from the given `recvfrom` results. -/
def getCompleteAllocatedBuffer (args : AllocatedArgs) (socket : List Recv) :
    Fed Allocated.State AllocatedExit Recv :=
  if args.nullArgs then .left ((Allocated.start args).error args badArg) socket
  else if Allocated.firstAllocateBuf args && !args.allocates (Allocated.firstBufLen args) then
    .left ((Allocated.start args).error args outOfMem) socket
  else feed (Allocated.round args) (Allocated.start args) socket

namespace Allocated

/-! ### The same as the other receiver -/

variable {args : AllocatedArgs} {other : CompleteArgs}

/-- Two buffers agree in every byte that was copied into them: a byte is the
same in both, or it is still what each held before. -/
def SameBytes (before otherBefore after otherAfter : Mem) : Prop :=
  ∀ index, after index = otherAfter index ∨
    (after index = before index ∧ otherAfter index = otherBefore index)

theorem SameBytes.refl (before otherBefore : Mem) :
    SameBytes before otherBefore before otherBefore :=
  fun _ => .inr ⟨rfl, rfl⟩

theorem SameBytes.write {before otherBefore after otherAfter : Mem}
    (same : SameBytes before otherBefore after otherAfter) (offset : Nat) (block : List UInt8) :
    SameBytes before otherBefore (after.write offset block) (otherAfter.write offset block) := by
  intro index
  by_cases inside : offset ≤ index ∧ index < offset + block.length
  · obtain ⟨inner, rfl⟩ : ∃ inner, index = offset + inner := ⟨index - offset, by omega⟩
    left
    rw [Memory.write_inside _ _ _ (by omega), Memory.write_inside _ _ _ (by omega)]
  · rw [Memory.write_outside _ _ _ (by omega), Memory.write_outside _ _ _ (by omega)]
    exact same index

/-- The arguments of a call of the other receiver with a buffer of its own. -/
def withBuffer (args : AllocatedArgs) (bufLen : Nat) (dataBuf : Mem) : CompleteArgs :=
  { args.toCompleteArgs with bufLen := bufLen, dataBuf := dataBuf }

/-- The state of this receiver that has the variables of the other one. -/
def carry (other : Complete.State) (dataBuf : Mem) (bufLen : Nat) (allocateBuf : Bool) : State where
  toState := { other with dataBuf := dataBuf }
  bufLen := bufLen
  allocateBuf := allocateBuf

/-- The variables of the two receivers are the same, but for the buffers, which
hold the same data. -/
def Same (args : AllocatedArgs) (otherBuf : Mem) (state : State) (other : Complete.State) : Prop :=
  state = carry other state.dataBuf state.bufLen state.allocateBuf ∧
    SameBytes (firstBuf args) otherBuf state.dataBuf other.dataBuf

/-- Two calls end the same way: they return the same value, tick, data id,
statistics and bytes, or both divide by zero. -/
def SameExit (args : AllocatedArgs) (otherBuf : Mem) : AllocatedExit → Exit → Prop
  | .returned outcome, .returned other =>
      outcome.ret = other.ret ∧ outcome.tick = other.tick ∧ outcome.dataId = other.dataId ∧
        outcome.stats = other.stats ∧
        SameBytes (firstBuf args) otherBuf outcome.dataBuf other.dataBuf
  | .divideByZero, .divideByZero => True
  | _, _ => False

/-- The call does not report that its buffer is too small. -/
def Sufficed : Exit → Prop
  | .returned outcome => outcome.ret ≠ bufTooSmall
  | .divideByZero => True

section Lockstep

variable {args : AllocatedArgs} {otherLen : Nat} {otherBuf : Mem} {other : Complete.State}
  {dataBuf : Mem} {bufLen : Nat} {allocateBuf : Bool} {header : ReFields} {payload : List UInt8}

/-- `Round.Match` of the two receivers. -/
def Alike (args : AllocatedArgs) (otherBuf : Mem) :
    Round State AllocatedExit → Round Complete.State Exit → Prop :=
  Round.Match (Same args otherBuf) (SameExit args otherBuf)

theorem finish_same (other : Complete.State)
    (bytes : SameBytes (firstBuf args) otherBuf dataBuf other.dataBuf) :
    SameExit args otherBuf (finish args (carry other dataBuf bufLen allocateBuf) header)
      (Complete.finish (withBuffer args otherLen otherBuf) other header) := by
  unfold finish Complete.finish
  cases given : other.stats with
  | none =>
      simp only [carry, given]
      exact ⟨rfl, rfl, rfl, rfl, bytes⟩
  | some stats =>
      have equal : Complete.finishStats args.toCompleteArgs
          (carry other dataBuf bufLen allocateBuf).toState header.tick stats =
          Complete.finishStats (withBuffer args otherLen otherBuf) other header.tick stats := rfl
      simp only [carry, given] at equal ⊢
      rw [equal]
      cases Complete.finishStats (withBuffer args otherLen otherBuf) other header.tick stats with
      | none => trivial
      | some stats => exact ⟨rfl, rfl, rfl, rfl, bytes⟩

/-- A packet ends far below the largest `size_t`. -/
theorem end_lt {header : ReFields} {payload : List UInt8} (short : payload.length < 2 ^ 32) :
    header.offset.toNat + payload.length < 2 ^ 33 := by
  have below := header.offset.toNat_lt
  omega

/-- A buffer that is too small for a packet is doubled without overflow. -/
theorem doubled_eq {needed : Nat} (tooSmall : bufLen < needed) (below : needed < 2 ^ 33) :
    bufLen * 2 % 2 ^ 64 = 2 * bufLen := by
  rw [Nat.mod_eq_of_lt (by omega), Nat.mul_comm]

theorem writeData_eq (other : Complete.State)
    (room : header.offset.toNat + payload.length ≤ bufLen) :
    writeData args (carry other dataBuf bufLen allocateBuf) header payload =
      if (other.afterCopy header payload).totalBytesRead ≥ (header.length.toNat : Int) then
        .leave (finish args (carry (other.afterCopy header payload)
          (dataBuf.write header.offset.toNat payload) bufLen allocateBuf) header)
      else .again (carry (other.afterCopy header payload)
        (dataBuf.write header.offset.toNat payload) bufLen allocateBuf) :=
  if_neg (not_lt.mpr room)

theorem writeData_alike (other : Complete.State)
    (bytes : SameBytes (firstBuf args) otherBuf dataBuf other.dataBuf)
    (room : header.offset.toNat + payload.length ≤ bufLen)
    (otherRoom : header.offset.toNat + payload.length ≤ otherLen) :
    Alike args otherBuf (writeData args (carry other dataBuf bufLen allocateBuf) header payload)
      (Complete.copyData (withBuffer args otherLen otherBuf) other header payload) := by
  have written := bytes.write header.offset.toNat payload
  rw [writeData_eq other room, Complete.copyData_eq other otherRoom]
  split_ifs
  · exact .leave (finish_same (other.afterCopy header payload) written)
  · exact .again ⟨rfl, written⟩

theorem copyData_alike (allocates : ∀ size, args.allocates size = true)
    (short : payload.length < 2 ^ 32) (other : Complete.State)
    (bytes : SameBytes (firstBuf args) otherBuf dataBuf other.dataBuf)
    (room : header.offset.toNat + payload.length ≤ 2 * bufLen)
    (sufficed : ∀ exit, Complete.copyData (withBuffer args otherLen otherBuf) other header
      payload = .leave exit → Sufficed exit) :
    Alike args otherBuf (copyData args (carry other dataBuf bufLen allocateBuf) header payload)
      (Complete.copyData (withBuffer args otherLen otherBuf) other header payload) := by
  have otherRoom : header.offset.toNat + payload.length ≤ otherLen := by
    by_contra tooBig
    exact sufficed _ (if_pos (not_le.mp tooBig)) rfl
  unfold copyData
  split
  case isTrue tooSmall =>
    rw [if_pos (allocates _)]
    apply writeData_alike other bytes _ otherRoom
    rwa [doubled_eq tooSmall (end_lt short)]
  case isFalse fits => exact writeData_alike other bytes (not_lt.mp fits) otherRoom

/-- Carry out a decision of the other receiver. -/
def carryOut (args : AllocatedArgs) (dataBuf : Mem) (bufLen : Nat) (allocateBuf : Bool)
    (header : ReFields) (payload : List UInt8) : Complete.Plan → Round State AllocatedExit
  | .divide => .leave .divideByZero
  | .pass next => .again (carry next dataBuf bufLen allocateBuf)
  | .copy ready => copyData args (carry ready dataBuf bufLen allocateBuf) header payload

theorem sortTick_eq (prevLength prevTotalPkts : UInt32) (other : Complete.State) :
    sortTick args (carry other dataBuf bufLen allocateBuf) prevLength prevTotalPkts header
        payload =
      carryOut args dataBuf bufLen allocateBuf header payload
        (Complete.planTick other prevLength prevTotalPkts header) := by
  unfold sortTick Complete.planTick
  dsimp +instances only [carry]
  split_ifs <;> rfl

/-- This receiver decides as the other one does. -/
theorem handle_eq (other : Complete.State) :
    handle args (carry other dataBuf bufLen allocateBuf) header payload =
      carryOut args dataBuf bufLen allocateBuf header payload
        (Complete.plan other header payload) := by
  unfold handle Complete.plan
  dsimp +instances only [carry]
  split_ifs
  · rfl
  · exact sortTick_eq _ _ (other.firstRead header payload)
  · rfl
  · exact sortTick_eq _ _ (other.parsed header)

theorem handle_eq_self (state : State) :
    handle args state header payload =
      carryOut args state.dataBuf state.bufLen state.allocateBuf header payload
        (Complete.plan state.toState header payload) :=
  handle_eq state.toState

/-- A packet that ends within twice the capacity, if it is copied, leads both
receivers to the same. -/
theorem handle_alike (allocates : ∀ size, args.allocates size = true) (hasData : payload ≠ [])
    (short : payload.length < 2 ^ 32) {state : State} (same : Same args otherBuf state other)
    (room : Complete.Copied state.toState header →
      header.offset.toNat + payload.length ≤ 2 * state.bufLen)
    (sufficed : ∀ exit, Complete.handle (withBuffer args otherLen otherBuf) other header
      payload = .leave exit → Sufficed exit) :
    Alike args otherBuf (handle args state header payload)
      (Complete.handle (withBuffer args otherLen otherBuf) other header payload) := by
  rcases same with ⟨carried, bytes⟩
  have copied : Complete.Copied state.toState header ↔ Complete.Copied other header := by
    rw [carried]
    rfl
  have decided := Complete.plan_copy_iff other header hasData
  rw [Complete.handle_eq] at sufficed ⊢
  rw [carried, handle_eq]
  cases plan : Complete.plan other header payload with
  | divide => exact .leave trivial
  | pass next =>
      have kept := Complete.plan_dataBuf (congrArg Complete.Plan.state? plan)
      exact .again ⟨rfl, kept ▸ bytes⟩
  | copy ready =>
      rw [plan] at sufficed
      have kept := Complete.plan_dataBuf (congrArg Complete.Plan.state? plan)
      exact copyData_alike allocates short ready (kept ▸ bytes)
        (room (copied.mpr (decided.mp ⟨ready, plan⟩))) sufficed

theorem finish_ne_outOfBounds (state : State) : finish args state header ≠ .outOfBounds := by
  unfold finish
  split <;> exact nofun

theorem writeData_outOfBounds_iff (state : State) :
    writeData args state header payload = .leave .outOfBounds ↔
      state.bufLen < header.offset.toNat + payload.length := by
  by_cases beyond : state.bufLen < header.offset.toNat + payload.length
  · rw [writeData, if_pos beyond]
    exact ⟨fun _ => beyond, fun _ => rfl⟩
  · rw [show state = carry state.toState state.dataBuf state.bufLen state.allocateBuf from rfl,
      writeData_eq _ (not_lt.mp beyond)]
    constructor
    · split_ifs
      · intro left
        exact absurd (Round.leave.inj left) (finish_ne_outOfBounds _)
      · exact nofun
    · intro tooBig
      exact absurd tooBig beyond

theorem copyData_outOfBounds_iff (allocates : ∀ size, args.allocates size = true)
    (short : payload.length < 2 ^ 32) (state : State) :
    copyData args state header payload = .leave .outOfBounds ↔
      2 * state.bufLen < header.offset.toNat + payload.length := by
  unfold copyData
  split
  case isTrue tooSmall =>
    rw [if_pos (allocates _), writeData_outOfBounds_iff, doubled_eq tooSmall (end_lt short)]
  case isFalse fits =>
    rw [writeData_outOfBounds_iff]
    omega

/-- A packet that is copied and ends beyond twice the capacity is copied out of
bounds, and no other is. -/
theorem handle_outOfBounds_iff (allocates : ∀ size, args.allocates size = true)
    (hasData : payload ≠ []) (short : payload.length < 2 ^ 32) (state : State) :
    handle args state header payload = .leave .outOfBounds ↔
      ¬ (Complete.Copied state.toState header →
        header.offset.toNat + payload.length ≤ 2 * state.bufLen) := by
  rw [← Complete.plan_copy_iff state.toState header hasData, handle_eq_self]
  cases Complete.plan state.toState header payload with
  | divide => simp [carryOut]
  | pass next => simp [carryOut]
  | copy ready =>
      simp only [carryOut, copyData_outOfBounds_iff allocates short, carry]
      simp

end Lockstep

/-! ### A buffer that is large enough -/

/-- The result of a finished call is its byte count. -/
theorem finish_ret {args : CompleteArgs} {state : Complete.State} {header : ReFields}
    {outcome : Outcome} (ends : Complete.finish args state header = .returned outcome) :
    outcome.ret = state.totalBytesRead := by
  unfold Complete.finish at ends
  cases given : state.stats with
  | none =>
      rw [given] at ends
      cases ends
      rfl
  | some stats =>
      rw [given] at ends
      cases finished : Complete.finishStats args state header.tick stats with
      | none => simp [finished] at ends
      | some after =>
          simp only [finished] at ends
          cases ends
          rfl

theorem copyData_large {args : CompleteArgs} (large : 2 ^ 33 ≤ args.bufLen)
    {state : Complete.State} (nonneg : 0 ≤ state.totalBytesRead) {header : ReFields}
    {payload : List UInt8} (short : payload.length < 2 ^ 32) :
    (∀ next, Complete.copyData args state header payload = .again next →
      0 ≤ next.totalBytesRead) ∧
    ∀ exit, Complete.copyData args state header payload = .leave exit → Sufficed exit := by
  have counted : 0 ≤ (state.afterCopy header payload).totalBytesRead :=
    Int.add_nonneg nonneg (Int.natCast_nonneg _)
  rw [Complete.copyData_eq state (le_trans (end_lt short).le large)]
  constructor
  · intro next goesOn
    split_ifs at goesOn
    cases goesOn
    exact counted
  · intro exit left
    split_ifs at left
    cases exit with
    | divideByZero => trivial
    | returned outcome =>
        have ret := finish_ret (Round.leave.inj left)
        intro tooSmall
        rw [tooSmall, bufTooSmall] at ret
        omega

theorem round_large {args : CompleteArgs} (large : 2 ^ 33 ≤ args.bufLen)
    {state : Complete.State} (nonneg : 0 ≤ state.totalBytesRead) (recv : Recv) :
    (∀ next, Complete.round args state recv = .again next → 0 ≤ next.totalBytesRead) ∧
      ∀ exit, Complete.round args state recv = .leave exit → Sufficed exit := by
  have error (code : Int) (isOther : code ≠ bufTooSmall) :
      (∀ next : Complete.State, Round.leave (state.error args code) = .again next →
        0 ≤ next.totalBytesRead) ∧
      ∀ exit, Round.leave (σ := Complete.State) (state.error args code) = .leave exit →
        Sufficed exit := by
    constructor
    · intro next goesOn
      cases goesOn
    · intro exit left
      rw [← Round.leave.inj left]
      exact isOther
  cases recv with
  | failed => exact error recvMsg (by decide)
  | datagram bytes =>
      by_cases long : reHeaderBytes ≤ bytes.length
      · have size := Complete.arrivedPayload_length bytes
        rw [Complete.round_datagram args state long, Complete.handle_eq]
        cases decided : Complete.plan state (Complete.arrivedHeader args.host bytes)
            (Complete.arrivedPayload bytes) with
        | divide =>
            constructor
            · intro next goesOn
              cases goesOn
            · intro exit left
              rw [← Round.leave.inj left]
              trivial
        | pass next =>
            have kept := Complete.plan_totalBytesRead
              (congrArg Complete.Plan.state? decided) nonneg
            constructor
            · intro after goesOn
              rw [← Round.again.inj goesOn]
              exact kept
            · intro exit left
              cases left
        | copy ready =>
            exact copyData_large large
              (Complete.plan_totalBytesRead (congrArg Complete.Plan.state? decided) nonneg)
              (by omega)
      · rw [Complete.round_short args state (not_le.mp long)]
        exact error internalError (by decide)

/-- A buffer of this size is large enough for every stream. -/
theorem sufficed_of_large (args : CompleteArgs) (large : 2 ^ 33 ≤ args.bufLen)
    {socket : List Recv} {exit : Exit} {rest : List Recv}
    (left : getCompletePacketizedBuffer args socket = .left exit rest) : Sufficed exit := by
  rcases feed_left_post (fun _ state => 0 ≤ state.totalBytesRead)
    (fun _ exit => Sufficed exit)
    (fun _ recv _ next nonneg => (round_large large nonneg recv).1 next)
    (fun _ recv _ exit nonneg => (round_large large nonneg recv).2 exit) (Int.le_refl 0) left with
    ⟨-, -, sufficed⟩
  exact sufficed

/-! ### Runs -/

/-- If the packet is copied, it ends within twice the capacity of the moment. -/
def Room (host : ByteOrder) (state : State) : Recv → Prop
  | .failed => True
  | .datagram bytes => Complete.Copied state.toState (Complete.arrivedHeader host bytes) →
      (Complete.arrivedHeader host bytes).offset.toNat + (Complete.arrivedPayload bytes).length ≤
        2 * state.bufLen

instance (host : ByteOrder) (state : State) : ∀ recv : Recv, Decidable (Room host state recv)
  | .failed => inferInstanceAs (Decidable True)
  | .datagram bytes => inferInstanceAs (Decidable (
      Complete.Copied state.toState (Complete.arrivedHeader host bytes) →
        (Complete.arrivedHeader host bytes).offset.toNat +
          (Complete.arrivedPayload bytes).length ≤ 2 * state.bufLen))

/-- The call stays within its buffer and does what the other receiver does with
the given one: both wait with the same data, or both end the same way and have
read the same packets. -/
def Agrees (args : AllocatedArgs) (otherLen : Nat) (otherBuf : Mem) (socket : List Recv) : Prop :=
  Fed.Match id (Same args otherBuf) (SameExit args otherBuf)
    (getCompleteAllocatedBuffer args socket)
    (getCompletePacketizedBuffer (withBuffer args otherLen otherBuf) socket)

section Runs

variable {args : AllocatedArgs} (allocates : ∀ size, args.allocates size = true) {otherLen : Nat}
  {otherBuf : Mem}

theorem round_datagram (state : State) {bytes : List UInt8}
    (long : reHeaderBytes ≤ bytes.length) :
    round args state (.datagram bytes) = handle args state
      (Complete.arrivedHeader args.host bytes) (Complete.arrivedPayload bytes) :=
  if_neg (Complete.long_take long)

include allocates in
theorem round_alike {recv : Recv} {state : State} {other : Complete.State}
    (hasData : recv.HasData) (same : Same args otherBuf state other)
    (room : Room args.host state recv)
    (sufficed : ∀ exit, Complete.round (withBuffer args otherLen otherBuf) other recv =
      .leave exit → Sufficed exit) :
    Alike args otherBuf (round args state recv)
      (Complete.round (withBuffer args otherLen otherBuf) other recv) := by
  cases recv with
  | failed =>
      rcases same with ⟨carried, bytes⟩
      have stats : state.stats = other.stats := by
        rw [carried]
        rfl
      exact .leave ⟨rfl, rfl, rfl, stats, bytes⟩
  | datagram bytes =>
      have long : reHeaderBytes < bytes.length := hasData
      rcases Complete.arrivedPayload_bounds long with ⟨positive, short⟩
      rw [Complete.round_datagram _ _ long.le] at sufficed ⊢
      rw [round_datagram _ long.le]
      exact handle_alike allocates positive short same room sufficed

include allocates in
/-- A round goes out of bounds exactly when it does not have the room. -/
theorem room_iff {recv : Recv} (hasData : recv.HasData) (state : State) :
    Room args.host state recv ↔ round args state recv ≠ .leave .outOfBounds := by
  cases recv with
  | failed => simp [Room, round, State.error]
  | datagram bytes =>
      have long : reHeaderBytes < bytes.length := hasData
      rcases Complete.arrivedPayload_bounds long with ⟨positive, short⟩
      rw [round_datagram _ long.le, Ne, handle_outOfBounds_iff allocates positive short, not_not]
      rfl

include allocates in
theorem runs_eq (pointers : args.nullArgs = false) (socket : List Recv) :
    getCompleteAllocatedBuffer args socket = feed (round args) (start args) socket := by
  simp [getCompleteAllocatedBuffer, pointers, allocates]

include allocates in
/-- A call that agrees with the other one has room in every round. -/
theorem along_of_agrees (pointers : args.nullArgs = false) {socket : List Recv}
    (haveData : ∀ recv ∈ socket, recv.HasData) (agrees : Agrees args otherLen otherBuf socket) :
    Along (round args) (Room args.host) (start args) socket := by
  rw [along_iff_ne_left AllocatedExit.outOfBounds
    (fun recv member state => room_iff allocates (haveData recv member) state)]
  intro rest left
  unfold Agrees at agrees
  rw [runs_eq allocates pointers, left] at agrees
  generalize getCompletePacketizedBuffer _ socket = other at agrees
  cases agrees with
  | left out =>
      next exit => cases exit <;> exact out

include allocates in
/-- A call with room in every round does what the other one does. -/
theorem agrees_of_along (pointers : args.nullArgs = false) {socket : List Recv}
    (haveData : ∀ recv ∈ socket, recv.HasData)
    (sufficed : ∀ exit rest,
      getCompletePacketizedBuffer (withBuffer args otherLen otherBuf) socket = .left exit rest →
        Sufficed exit)
    (room : Along (round args) (Room args.host) (start args) socket) :
    Agrees args otherLen otherBuf socket := by
  have roomy : Along (Complete.round (withBuffer args otherLen otherBuf))
      (fun state recv => ∀ exit, Complete.round (withBuffer args otherLen otherBuf) state recv =
        .leave exit → Sufficed exit) (Complete.start (withBuffer args otherLen otherBuf))
      socket := by
    rw [along_iff_left Sufficed (fun _ _ _ => Iff.rfl)]
    exact sufficed
  have begins : Same args otherBuf (start args)
      (Complete.start (withBuffer args otherLen otherBuf)) := ⟨rfl, .refl _ _⟩
  have lockstep := feed_lockstep_along id _ _
    (fun recv member state other same room fulfils =>
      round_alike allocates (haveData recv member) same room fulfils)
    begins (by rwa [List.map_id]) roomy
  rw [List.map_id] at lockstep
  unfold Agrees
  rw [runs_eq allocates pointers]
  exact lockstep

end Runs

/-- The call stays within its buffer and does what the other receiver does with
a buffer that is large enough, exactly when every packet that is copied ends
within twice the capacity current when it arrives. -/
theorem agrees_iff (args : AllocatedArgs) (pointers : args.nullArgs = false)
    (allocates : ∀ size, args.allocates size = true) (otherLen : Nat) (otherBuf : Mem)
    (socket : List Recv) (haveData : ∀ recv ∈ socket, recv.HasData)
    (sufficed : ∀ exit rest,
      getCompletePacketizedBuffer (withBuffer args otherLen otherBuf) socket = .left exit rest →
        Sufficed exit) :
    Agrees args otherLen otherBuf socket ↔
      Along (round args) (Room args.host) (start args) socket :=
  ⟨along_of_agrees allocates pointers haveData,
    agrees_of_along allocates pointers haveData sufficed⟩

/-- A call without a buffer, for which 100000 bytes are allocated. -/
def sampleArgs : AllocatedArgs where
  host := .little
  dataBuf := fun _ => 0
  bufLen := 0
  tick := 0xFFFFFFFFFFFFFFFF
  wantsDataId := true
  stats := none
  tickPrescale := 1
  nullArgs := false
  given := false
  fresh := fun _ => 0
  allocates := fun _ => true

/-- One byte of a buffer of the given length. -/
def sampleDatagram (offset length : UInt32) (byte : UInt8) : Recv :=
  .datagram (reHeader offset length 7 2 5 0 ++ [byte])

theorem agrees_sample :
    Agrees sampleArgs (2 ^ 33) (fun _ => 0) [sampleDatagram 0 2 1, sampleDatagram 1 2 9] :=
  (agrees_iff sampleArgs rfl (fun _ => rfl) (2 ^ 33) (fun _ => 0) _ (by decide +kernel)
    (fun _ _ left => sufficed_of_large _ (le_refl _) left)).mpr (by decide +kernel)

/-- A packet that lies beyond twice the capacity is written out of bounds, where
the other receiver builds the buffer. -/
theorem not_agrees_sample :
    (∀ recv ∈ [sampleDatagram 0 300001 1, sampleDatagram 300000 300001 2], recv.HasData) ∧
      (∀ exit rest, getCompletePacketizedBuffer (withBuffer sampleArgs (2 ^ 33) fun _ => 0)
        [sampleDatagram 0 300001 1, sampleDatagram 300000 300001 2] = .left exit rest →
          Sufficed exit) ∧
      ¬ Agrees sampleArgs (2 ^ 33) (fun _ => 0)
        [sampleDatagram 0 300001 1, sampleDatagram 300000 300001 2] := by
  refine ⟨by decide +kernel, fun _ _ left => sufficed_of_large _ (le_refl _) left, ?_⟩
  intro agrees
  have room := along_of_agrees (fun _ => rfl) rfl (by decide +kernel) agrees
  revert room
  decide +kernel

end Allocated

end Dift.Assemble
