import Dift.Assemble.Division

/-!
Owns what becomes of the ticks that `getCompletePacketizedBuffer` does not
return. A tick whose first packet is missing is thrown away packet by packet,
but for the one tick whose number is the initial value of `prevTick`.
-/

namespace Dift.Assemble

open Dift.Foundation
open Dift.Wire

namespace Complete

/-! ### A tick without its first packet -/

/-- The buffer that a round leaves behind, if the program goes on. -/
def leftBuf : Round State Exit → Option Mem
  | .again next => some next.dataBuf
  | .leave (.returned outcome) => some outcome.dataBuf
  | .leave .divideByZero => none

/-- The same variables with another buffer. Statistics are left out, since their
division could end the program after a copy. -/
def State.withBuf (state : State) (memory : Mem) : State :=
  { state with dataBuf := memory, stats := none }

/-- A round copies no byte into the buffer, whatever the buffer holds. -/
def CopiesNothing (args : CompleteArgs) (state : State) (recv : Recv) : Prop :=
  ∀ memory after, leftBuf (round args (state.withBuf memory) recv) = some after → after = memory

/-- The call copies no byte and does not return a buffer. -/
def DumpsAll (args : CompleteArgs) (socket : List Recv) : Prop :=
  Along (round args) (CopiesNothing args) (start args) socket ∧
    ∀ outcome rest, getCompletePacketizedBuffer args socket = .left (.returned outcome) rest →
      outcome.ret < 0

/-- A datagram that holds a header of the tick. -/
def OfTick (host : ByteOrder) (tick : UInt64) (bytes : List UInt8) : Prop :=
  reHeaderBytes ≤ bytes.length ∧ (arrivedHeader host bytes).tick = tick

/-- The tick is being thrown away. -/
structure Dumping (tick : UInt64) (state : State) : Prop where
  first : state.veryFirstRead = true
  dumps : state.dumpTick = true
  current : state.prevTick = tick

variable {args : CompleteArgs} {state : State} {header : ReFields} {payload : List UInt8}
  {bytes : List UInt8} {tick : UInt64}

/-- The same decision with another buffer. -/
def Plan.withBuf (memory : Mem) : Plan → Plan
  | .divide => .divide
  | .pass next => .pass (next.withBuf memory)
  | .copy ready => .copy (ready.withBuf memory)

theorem plan_withBuf (memory : Mem) :
    plan (state.withBuf memory) header payload = (plan state header payload).withBuf memory := by
  unfold plan planTick State.firstRead State.parsed State.withBuf
  dsimp +instances only
  split_ifs <;> rfl

/-- A round that does not get as far as the copy. -/
theorem copiesNothing_of_plan (long : reHeaderBytes ≤ bytes.length)
    (notCopied : ∀ ready, plan state (arrivedHeader args.host bytes) (arrivedPayload bytes) ≠
      .copy ready) : CopiesNothing args state (.datagram bytes) := by
  intro memory after left
  rw [round_datagram _ _ long, handle_eq, plan_withBuf] at left
  cases decided : plan state (arrivedHeader args.host bytes) (arrivedPayload bytes) with
  | divide =>
      rw [decided] at left
      cases left
  | pass next =>
      rw [decided] at left
      cases left
      rfl
  | copy ready => exact absurd decided (notCopied ready)

theorem plan_dumping (dumping : Dumping tick state) (same : header.tick = tick)
    (payload : List UInt8) :
    plan state header payload = .divide ∨
      ∃ next, plan state header payload = .pass next ∧ Dumping tick next := by
  by_cases empty : payload = []
  · exact .inl ((plan_divide_iff _ _ _).mpr ⟨dumping.first, empty⟩)
  · right
    rw [plan_first state header dumping.first empty,
      planTick_dumped (state.firstRead header payload) (same.trans dumping.current.symm)
        dumping.dumps]
    exact ⟨_, rfl, rfl, dumping.dumps, dumping.current⟩

/-- A tick that is thrown away stays so until another one arrives. -/
theorem dumping_run {others : List (List UInt8)}
    (ofTick : ∀ bytes ∈ others, OfTick args.host tick bytes) (dumping : Dumping tick state) :
    Along (round args) (CopiesNothing args) state (others.map .datagram) ∧
      ∀ outcome rest, feed (round args) state (others.map .datagram) ≠
        .left (.returned outcome) rest := by
  induction others generalizing state with
  | nil =>
      constructor
      · trivial
      · intro outcome rest left
        cases left
  | cons bytes rest inductionHypothesis =>
      rcases ofTick bytes (by simp) with ⟨long, same⟩
      have later := fun other member => ofTick other (List.mem_cons_of_mem bytes member)
      have decided := plan_dumping dumping same (arrivedPayload bytes)
      have nothing : CopiesNothing args state (.datagram bytes) := by
        apply copiesNothing_of_plan long
        intro ready copies
        rcases decided with divides | ⟨next, passes, -⟩
        · rw [copies] at divides
          cases divides
        · rw [copies] at passes
          cases passes
      rcases decided with divides | ⟨next, passes, stays⟩
      · have step : round args state (.datagram bytes) = .leave .divideByZero := by
          rw [round_datagram _ _ long, handle_eq, divides]
          rfl
        rw [List.map_cons, along_cons_of_leave step, feed_cons_of_leave step]
        constructor
        · exact nothing
        · intro outcome unread left
          cases left
      · have step : round args state (.datagram bytes) = .again next := by
          rw [round_datagram _ _ long, handle_eq, passes]
          rfl
        rw [List.map_cons, along_cons_of_again step, feed_cons_of_again step]
        rcases inductionHypothesis later stays with ⟨along, never⟩
        exact ⟨⟨nothing, along⟩, never⟩

/-- The first packet of a call, when it is not the first of its tick, begins the
dump, unless its tick is `UINT_MAX`. -/
theorem plan_start_missing (args : CompleteArgs) (notSentinel : header.tick ≠ uintMax)
    (missing : header.offset ≠ 0) (hasData : payload ≠ []) :
    ∃ next, plan (start args) header payload = .pass next ∧ Dumping header.tick next := by
  rw [plan_first (start args) header rfl hasData,
    planTick_missing ((start args).firstRead header payload) notSentinel missing]
  exact ⟨_, rfl, rfl, rfl, rfl⟩

theorem plan_start_sentinel (args : CompleteArgs) (sentinel : header.tick = uintMax)
    (hasData : payload ≠ []) :
    plan (start args) header payload = .copy ((start args).firstRead header payload) := by
  rw [plan_first (start args) header rfl hasData,
    planTick_same ((start args).firstRead header payload) sentinel rfl]

/-- A copied packet with data shows in some buffer. -/
theorem not_copiesNothing_of_copy (long : reHeaderBytes ≤ bytes.length)
    (hasData : arrivedPayload bytes ≠ []) {ready : State}
    (copies : plan state (arrivedHeader args.host bytes) (arrivedPayload bytes) = .copy ready)
    (room : (arrivedHeader args.host bytes).offset.toNat + (arrivedPayload bytes).length ≤
      args.bufLen) : ¬ CopiesNothing args state (.datagram bytes) := by
  rcases List.exists_cons_of_ne_nil hasData with ⟨byte, more, split⟩
  intro nothing
  let memory : Mem := fun _ => byte + 1
  have written : leftBuf (round args (state.withBuf memory) (.datagram bytes)) =
      some (memory.write (arrivedHeader args.host bytes).offset.toNat (arrivedPayload bytes)) := by
    rw [round_datagram _ _ long, handle_eq, plan_withBuf, copies, Plan.withBuf, Plan.carryOut,
      copyData_eq _ room]
    split_ifs <;> rfl
  have held := congrFun (nothing memory _ written) (arrivedHeader args.host bytes).offset.toNat
  rw [split] at held
  have inside := memory.write_inside (arrivedHeader args.host bytes).offset.toNat (byte :: more)
    (show 0 < (byte :: more).length by simp)
  rw [Nat.add_zero, held] at inside
  have different : byte + 1 ≠ byte := by
    intro same
    have zero : (1 : UInt8) = 0 := by
      rwa [UInt8.add_eq_left] at same
    exact absurd zero (by decide)
  exact different inside

/-- A packet that does not fit ends the call and is not copied. -/
theorem round_tooSmall (long : reHeaderBytes ≤ bytes.length) {ready : State}
    (copies : plan state (arrivedHeader args.host bytes) (arrivedPayload bytes) = .copy ready)
    (tooSmall : args.bufLen <
      (arrivedHeader args.host bytes).offset.toNat + (arrivedPayload bytes).length) :
    round args state (.datagram bytes) = .leave (ready.error args bufTooSmall) := by
  rw [round_datagram _ _ long, handle_eq, copies, Plan.carryOut, copyData, if_pos tooSmall]

section First

variable {first : List UInt8} {others : List Recv} (long : reHeaderBytes ≤ first.length)

include long

/-- A first packet without data ends the program before anything is copied. -/
theorem dumpsAll_of_empty (empty : arrivedPayload first = []) :
    DumpsAll args (.datagram first :: others) := by
  have divides : plan (start args) (arrivedHeader args.host first) (arrivedPayload first) =
      .divide := (plan_divide_iff _ _ _).mpr ⟨rfl, empty⟩
  have step : round args (start args) (.datagram first) = .leave .divideByZero := by
    rw [round_datagram _ _ long, handle_eq, divides]
    rfl
  unfold DumpsAll getCompletePacketizedBuffer
  rw [along_cons_of_leave step, feed_cons_of_leave step]
  constructor
  · apply copiesNothing_of_plan long
    intro ready copies
    rw [divides] at copies
    cases copies
  · intro outcome rest left
    cases left

/-- A first packet that is to be copied but does not fit ends the call. -/
theorem dumpsAll_of_tooSmall {ready : State}
    (copies : plan (start args) (arrivedHeader args.host first) (arrivedPayload first) =
      .copy ready)
    (tooSmall : args.bufLen <
      (arrivedHeader args.host first).offset.toNat + (arrivedPayload first).length) :
    DumpsAll args (.datagram first :: others) := by
  have step := round_tooSmall long copies tooSmall
  unfold DumpsAll getCompletePacketizedBuffer
  rw [along_cons_of_leave step, feed_cons_of_leave step]
  constructor
  · intro memory after left
    have otherCopies : plan ((start args).withBuf memory) (arrivedHeader args.host first)
        (arrivedPayload first) = .copy (ready.withBuf memory) := by
      rw [plan_withBuf, copies]
      rfl
    rw [round_tooSmall long otherCopies tooSmall] at left
    exact (Option.some.inj left).symm
  · intro outcome rest left
    cases left
    exact (by decide : bufTooSmall < 0)

end First

/-- A tick whose first packet is missing at the beginning of a call is thrown
away whole, unless its number is `UINT_MAX` and its first packet has data that
fits into the buffer. -/
theorem dumpsAll_iff (args : CompleteArgs) (tick : UInt64) (first : List UInt8)
    (others : List (List UInt8)) (ofTick : ∀ bytes ∈ first :: others, OfTick args.host tick bytes)
    (missing : (arrivedHeader args.host first).offset ≠ 0) :
    DumpsAll args ((first :: others).map .datagram) ↔
      tick ≠ uintMax ∨ arrivedPayload first = [] ∨
        args.bufLen <
          (arrivedHeader args.host first).offset.toNat + (arrivedPayload first).length := by
  rcases ofTick first (by simp) with ⟨long, same⟩
  have later := fun other member => ofTick other (List.mem_cons_of_mem first member)
  by_cases empty : arrivedPayload first = []
  · exact ⟨fun _ => .inr (.inl empty), fun _ => dumpsAll_of_empty long empty⟩
  · by_cases sentinel : tick = uintMax
    · have copies := plan_start_sentinel args (same.trans sentinel) empty
      by_cases room : (arrivedHeader args.host first).offset.toNat +
          (arrivedPayload first).length ≤ args.bufLen
      · have shows := not_copiesNothing_of_copy long empty copies room
        constructor
        · intro dumps
          exact absurd dumps.1.1 shows
        · intro excuse
          simp [sentinel, empty, not_lt.mpr room] at excuse
      · have tooSmall := not_le.mp room
        exact ⟨fun _ => .inr (.inr tooSmall), fun _ => dumpsAll_of_tooSmall long copies tooSmall⟩
    · have notSentinel : (arrivedHeader args.host first).tick ≠ uintMax := same ▸ sentinel
      rcases plan_start_missing args notSentinel missing empty with ⟨next, passes, dumping⟩
      have step : round args (start args) (.datagram first) = .again next := by
        rw [round_datagram _ _ long, handle_eq, passes]
        rfl
      rcases dumping_run later (same ▸ dumping) with ⟨along, never⟩
      refine ⟨fun _ => .inl sentinel, fun _ => ?_⟩
      unfold DumpsAll getCompletePacketizedBuffer
      rw [List.map_cons, along_cons_of_again step, feed_cons_of_again step]
      refine ⟨⟨?_, along⟩, fun outcome rest left => absurd left (never outcome rest)⟩
      apply copiesNothing_of_plan long
      intro ready copies
      rw [passes] at copies
      cases copies

/-- A call with a buffer of four bytes. -/
def dumpArgs : CompleteArgs where
  host := .little
  dataBuf := fun _ => 0
  bufLen := 4
  tick := 0xFFFFFFFFFFFFFFFF
  wantsDataId := true
  stats := none
  tickPrescale := 1

/-- One byte of a buffer of two. -/
def dumpDatagram (tick : UInt64) (offset : UInt32) (byte : UInt8) : List UInt8 :=
  reHeader offset 2 tick 2 5 0 ++ [byte]

theorem dumpsAll_sample :
    DumpsAll dumpArgs ([dumpDatagram 7 1 2, dumpDatagram 7 0 1].map .datagram) := by
  apply (dumpsAll_iff dumpArgs 7 _ _ _ (by decide +kernel)).mpr (.inl (by decide))
  intro bytes member
  rcases List.mem_pair.mp member with rfl | rfl
  · exact ⟨by decide, by decide +kernel⟩
  · exact ⟨by decide, by decide +kernel⟩

/-- The value that a call returns, if it does. -/
def returnedValue : Fed State Exit Recv → Option Int
  | .left (.returned outcome) _ => some outcome.ret
  | _ => none

theorem exists_of_returnedValue {fed : Fed State Exit Recv} {value : Int}
    (returns : returnedValue fed = some value) :
    ∃ outcome rest, fed = .left (.returned outcome) rest ∧ outcome.ret = value := by
  unfold returnedValue at returns
  split at returns
  · exact ⟨_, _, rfl, Option.some.inj returns⟩
  · cases returns

/-- Tick `UINT_MAX` is built although its first packet is not the first to
arrive. -/
theorem not_dumpsAll_uintMax :
    (∀ bytes ∈ [dumpDatagram 0xFFFFFFFF 1 2, dumpDatagram 0xFFFFFFFF 0 1],
        OfTick dumpArgs.host 0xFFFFFFFF bytes) ∧
      (arrivedHeader dumpArgs.host (dumpDatagram 0xFFFFFFFF 1 2)).offset ≠ 0 ∧
      ¬ DumpsAll dumpArgs
        ([dumpDatagram 0xFFFFFFFF 1 2, dumpDatagram 0xFFFFFFFF 0 1].map .datagram) := by
  refine ⟨?_, by decide +kernel, ?_⟩
  · intro bytes member
    rcases List.mem_pair.mp member with rfl | rfl
    · exact ⟨by decide, by decide +kernel⟩
    · exact ⟨by decide, by decide +kernel⟩
  · intro dumps
    have built : returnedValue (getCompletePacketizedBuffer dumpArgs
        ([dumpDatagram 0xFFFFFFFF 1 2, dumpDatagram 0xFFFFFFFF 0 1].map .datagram)) = some 2 := by
      decide +kernel
    rcases exists_of_returnedValue built with ⟨outcome, rest, returns, value⟩
    have negative := dumps.2 outcome rest returns
    omega

end Complete

end Dift.Assemble
