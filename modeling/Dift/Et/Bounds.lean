import Dift.Et.Conservation

/-!
Owns the memory bounds of `getBuffers`: the one `memcpy` that a round may come
to, what it means that it stays inside of what was received and of the event's
data area, and the condition on the datagram and the state before the round
under which it does. The code checks nothing but the announced length, so the
condition asks for the rest: a whole header, an offset with room behind it, and
arrays that were set up.
-/

namespace Dift.Et

open Dift.Foundation
open Dift.Wire
open Dift.Assemble

/-! ### The copy of a round -/

/-- A `memcpy` into an event's data area. There is no target when the pointer
comes from arrays that were never set up. -/
structure Copy where
  target : Option EventId
  bufOffset : Nat
  nBytes : Int
  bytesRead : Nat
deriving DecidableEq, Repr

/-- Some bytes that were received go inside of the data area of an event. -/
structure Copy.Inside (bufSizeMax : Nat) (copy : Copy) : Prop where
  target : copy.target ≠ none
  nonneg : 0 ≤ copy.nBytes
  received : (reHeaderBytes : Int) + copy.nBytes ≤ copy.bytesRead
  room : (copy.bufOffset : Int) + copy.nBytes ≤ bufSizeMax

namespace GetBuffers

variable (setting : Setting)

/-- The header as it is parsed: a short datagram leaves the rest of what was in
the packet buffer. -/
def arrivedHeader (state : State) (bytes : List UInt8) : ReFields :=
  parseReHeader setting.host (state.packetBuffer.write 0 (bytes.take packetBufSize)) 0

/-- The copy of a packet of a declared source, if the round comes to it. -/
def acceptCopy (state : State) (index : Nat) (header : ReFields) (bytesRead : Nat) :
    Option Copy :=
  match selectEntry setting state header.tick with
  | .error _ => none
  | .ok selected =>
      if header.length.toNat > setting.opened.bufSize.toNat then none
      else some {
        target := selected.cache.map fun cache => cache.events index
        bufOffset := header.offset.toNat
        nBytes := bytesRead - reHeaderBytes
        bytesRead := bytesRead }

/-- The copy of a round, if it comes to one. -/
def roundCopy (state : State) : Recv → Option Copy
  | .failed => none
  | .datagram bytes =>
      let header := arrivedHeader setting state bytes
      match bufIdReverseMap setting.opened.bufIds header.dataId.toNat with
      | none => none
      | some index =>
          acceptCopy setting
            { state with packetBuffer := state.packetBuffer.write 0 (bytes.take packetBufSize) }
            index header (bytes.take packetBufSize).length

/-- Every copy of the round stays inside. -/
def CopiesInside (state : State) (recv : Recv) : Prop :=
  ∀ copy, roundCopy setting state recv = some copy →
    copy.Inside setting.opened.bufSize.toNat

/-! ### The condition -/

/-- The entry of a new tick cannot be had: there is none free and no memory for
another, or the ET system refuses it. -/
def NoEntry (state : State) (tick : UInt64) : Prop :=
  tick ≠ state.prevTick ∧ state.buffers.lookup tick = none ∧
    (state.freeEntries = [] ∧ setting.opened.noMemory state.fifo.created = true ∨
      setting.opened.refusal state.fifo.filled ≠ none)

/-- A packet of a declared source that gets past the exceptions has a whole
header and an offset with room for its data, and is of a new tick unless the
arrays are set up. -/
def Bounded (state : State) : Recv → Prop
  | .failed => True
  | .datagram bytes =>
      let header := arrivedHeader setting state bytes
      let bytesRead := min packetBufSize bytes.length
      (bufIdReverseMap setting.opened.bufIds header.dataId.toNat).isSome →
      header.length.toNat ≤ setting.opened.bufSize.toNat → ¬ NoEntry setting state header.tick →
        reHeaderBytes ≤ bytesRead ∧
        header.offset.toNat + (bytesRead - reHeaderBytes) ≤ setting.opened.bufSize.toNat ∧
        (header.tick = state.prevTick → state.cache ≠ none)

variable {setting}

/-! ### One round -/

/-- An entry cannot be taken, or taking it leaves the calls that filled entries
as they were. -/
theorem takeEntry_cases (state : State) :
    (state.freeEntries = [] ∧ setting.opened.noMemory state.fifo.created = true ∧
      takeEntry setting state = .error (.threw "out of memory")) ∨
    ¬ (state.freeEntries = [] ∧ setting.opened.noMemory state.fifo.created = true) ∧
      ∃ entry after, takeEntry setting state = .ok (entry, after) ∧
        after.fifo.filled = state.fifo.filled := by
  unfold takeEntry Fifo.entryCreate
  cases free : state.freeEntries with
  | nil =>
      cases memory : setting.opened.noMemory state.fifo.created with
      | true => exact .inl ⟨rfl, rfl, rfl⟩
      | false => exact .inr ⟨by simp, _, _, rfl, rfl⟩
  | cons entry rest => exact .inr ⟨by simp, _, _, rfl, rfl⟩

/-- The first packet of a tick gets no entry, or has the arrays set up. -/
theorem openTick_cases (state : State) (tick : UInt64) :
    ((state.freeEntries = [] ∧ setting.opened.noMemory state.fifo.created = true ∨
        setting.opened.refusal state.fifo.filled ≠ none) ∧
      ∃ reason, openTick setting state tick = .error reason ∧ reason ≠ .undefined) ∨
    ¬ (state.freeEntries = [] ∧ setting.opened.noMemory state.fifo.created = true ∨
        setting.opened.refusal state.fifo.filled ≠ none) ∧
      ∃ selected, openTick setting state tick = .ok selected ∧ selected.cache ≠ none := by
  rcases takeEntry_cases state with ⟨free, memory, throws⟩ | ⟨hasEntry, entry, after, taken, filled⟩
  · refine .inl ⟨.inl ⟨free, memory⟩, .threw "out of memory", ?_, nofun⟩
    rw [openTick, throws]
  · unfold openTick
    rw [taken]
    simp only [Fifo.newEntry, filled]
    cases refuses : setting.opened.refusal state.fifo.filled with
    | none => exact .inr ⟨by simpa using hasEntry, _, rfl, nofun⟩
    | some message => exact .inl ⟨.inr nofun, _, rfl, nofun⟩

variable (setting) in
/-- The selection throws when there is no entry, and otherwise the arrays are
set up unless they were not and the tick is the one before. -/
theorem selectEntry_cases (state : State) (tick : UInt64) :
    (NoEntry setting state tick ∧
      ∃ reason, selectEntry setting state tick = .error reason ∧ reason ≠ .undefined) ∨
    ¬ NoEntry setting state tick ∧
      ∃ selected, selectEntry setting state tick = .ok selected ∧
        (selected.cache = none ↔ tick = state.prevTick ∧ state.cache = none) := by
  unfold selectEntry NoEntry
  by_cases same : tick = state.prevTick
  · rw [if_neg (not_ne_iff.mpr same)]
    exact .inr ⟨fun noEntry => noEntry.1 same, _, rfl, by simp [same]⟩
  · rw [if_pos same]
    cases found : state.buffers.lookup tick with
    | some entry => exact .inr ⟨by simp, _, rfl, by simp [same, load]⟩
    | none =>
        rcases openTick_cases state tick with ⟨noEntry, throws⟩ | ⟨hasEntry, selected, opens, arrays⟩
        · exact .inl ⟨⟨same, rfl, noEntry⟩, throws⟩
        · exact .inr ⟨fun noEntry => hasEntry noEntry.2.2, selected, opens, by simp [same, arrays]⟩

theorem acceptCopy_inside_iff (state : State) (index : Nat) (header : ReFields)
    (bytesRead : Nat) :
    (∀ copy, acceptCopy setting state index header bytesRead = some copy →
      copy.Inside setting.opened.bufSize.toNat) ↔
    (header.length.toNat ≤ setting.opened.bufSize.toNat → ¬ NoEntry setting state header.tick →
      reHeaderBytes ≤ bytesRead ∧
      header.offset.toNat + (bytesRead - reHeaderBytes) ≤ setting.opened.bufSize.toNat ∧
      (header.tick = state.prevTick → state.cache ≠ none)) := by
  unfold acceptCopy
  rcases selectEntry_cases setting state header.tick with
    ⟨noEntry, reason, throws, -⟩ | ⟨hasEntry, selected, selects, arrays⟩
  · rw [throws]
    exact iff_of_true nofun fun _ hasEntry => absurd noEntry hasEntry
  · rw [selects]
    dsimp only
    split
    case isTrue large => exact iff_of_true nofun fun small => absurd small (not_le.mpr large)
    case isFalse small =>
      have target : (selected.cache.map fun cache => cache.events index) ≠ none ↔
          (header.tick = state.prevTick → state.cache ≠ none) := by
        rw [ne_eq, Option.map_eq_none_iff, arrays, not_and]
      constructor
      · intro inside _ _
        rcases inside _ rfl with ⟨isTarget, nonneg, received, room⟩
        dsimp only at nonneg received room
        exact ⟨by omega, by omega, target.mp isTarget⟩
      · intro bounded copy isCopy
        cases isCopy
        rcases bounded (not_lt.mp small) hasEntry with ⟨whole, room, isTarget⟩
        exact ⟨target.mpr isTarget, by dsimp only; omega, by dsimp only; omega, by
          dsimp only
          omega⟩

/-- The copies of a round stay inside exactly when the round is bounded. -/
theorem copiesInside_iff_bounded (state : State) (recv : Recv) :
    CopiesInside setting state recv ↔ Bounded setting state recv := by
  cases recv with
  | failed => exact iff_of_true nofun trivial
  | datagram bytes =>
      unfold CopiesInside roundCopy Bounded
      dsimp only
      cases declared : bufIdReverseMap setting.opened.bufIds
          (arrivedHeader setting state bytes).dataId.toNat with
      | none => exact iff_of_true nofun nofun
      | some index =>
          dsimp only
          rw [acceptCopy_inside_iff, List.length_take]
          exact ⟨fun bounded _ => bounded, fun bounded => bounded rfl⟩

/-! ### Runs -/

/-- When the copy leaves what was received or the data area, or has no
target. -/
theorem writePacket_eq_none_iff (state : State) (index : Nat) (header : ReFields)
    (bytesRead : Nat) :
    writePacket setting state index header bytesRead = none ↔
      state.cache = none ∨ bytesRead < reHeaderBytes ∨
        header.offset.toNat + (bytesRead - reHeaderBytes) > setting.opened.bufSize.toNat := by
  unfold writePacket
  cases arrays : state.cache with
  | none => simp
  | some cache =>
      dsimp only
      split
      case isTrue outside => exact iff_of_true rfl (.inr outside)
      case isFalse inside => exact iff_of_false nofun (by simpa using inside)

/-- A round that does not leave has no undefined copy. -/
theorem store_undefined_iff (state : State) (index : Nat) (header : ReFields) (bytesRead : Nat) :
    (∀ stopped, store setting state index header bytesRead = .leave stopped →
      stopped.reason ≠ .undefined) ↔
    (header.length.toNat ≤ setting.opened.bufSize.toNat →
      writePacket setting state index header bytesRead ≠ none) := by
  unfold store
  split
  case isTrue large =>
    refine iff_of_true (fun stopped isStopped => ?_) fun small => absurd small (not_le.mpr large)
    cases isStopped
    nofun
  case isFalse small =>
    split
    case h_1 undefined =>
      apply iff_of_false (fun defined => defined _ rfl rfl)
      intro defined
      exact defined (not_lt.mp small) undefined
    case h_2 written total event writes =>
      exact iff_of_true nofun fun _ => by rw [writes]; nofun

/-- What the model calls undefined is a copy that does not stay inside. -/
theorem accept_undefined_iff (state : State) (index : Nat) (header : ReFields)
    (bytesRead : Nat) :
    (∀ stopped, accept setting state index header bytesRead = .leave stopped →
      stopped.reason ≠ .undefined) ↔
    (header.length.toNat ≤ setting.opened.bufSize.toNat → ¬ NoEntry setting state header.tick →
      reHeaderBytes ≤ bytesRead ∧
      header.offset.toNat + (bytesRead - reHeaderBytes) ≤ setting.opened.bufSize.toNat ∧
      (header.tick = state.prevTick → state.cache ≠ none)) := by
  unfold accept
  rcases selectEntry_cases setting state header.tick with
    ⟨noEntry, reason, throws, defined⟩ | ⟨hasEntry, selected, selects, arrays⟩
  · rw [throws]
    refine iff_of_true (fun stopped isStopped => ?_) fun _ hasEntry => absurd noEntry hasEntry
    cases isStopped
    exact defined
  · rw [selects]
    dsimp only
    rw [store_undefined_iff, ne_eq, writePacket_eq_none_iff, arrays]
    constructor
    · intro defined small _
      have inside := defined small
      simp only [not_or, not_and, not_lt] at inside
      exact ⟨inside.2.1, inside.2.2, inside.1⟩
    · intro bounded small
      rcases bounded small hasEntry with ⟨whole, room, target⟩
      simp only [not_or, not_and, not_lt]
      exact ⟨target, whole, room⟩

theorem round_datagram (state : State) (bytes : List UInt8) :
    round setting state (.datagram bytes) =
      let received := { state with
        packetBuffer := state.packetBuffer.write 0 (bytes.take packetBufSize) }
      match bufIdReverseMap setting.opened.bufIds
          (arrivedHeader setting state bytes).dataId.toNat with
      | none =>
          if state.invalidPkts + 1 > 100 then
            .leave ⟨.threw "received over 100 pkts w/ wrong data id", received⟩
          else .again { received with invalidPkts := state.invalidPkts + 1 }
      | some index =>
          accept setting received index (arrivedHeader setting state bytes)
            (bytes.take packetBufSize).length := rfl

/-- A round is bounded exactly when nothing undefined happens in it. -/
theorem bounded_iff_defined (state : State) (recv : Recv) :
    Bounded setting state recv ↔
      ∀ stopped, round setting state recv = .leave stopped → stopped.reason ≠ .undefined := by
  cases recv with
  | failed =>
      apply iff_of_true trivial
      intro stopped isStopped
      cases isStopped
      nofun
  | datagram bytes =>
      rw [round_datagram]
      unfold Bounded
      dsimp only
      cases declared : bufIdReverseMap setting.opened.bufIds
          (arrivedHeader setting state bytes).dataId.toNat with
      | none =>
          apply iff_of_true nofun
          intro stopped isStopped
          dsimp only at isStopped
          split at isStopped
          · cases isStopped
            nofun
          · cases isStopped
      | some index =>
          dsimp only
          rw [accept_undefined_iff, List.length_take]
          exact ⟨fun bounded => bounded rfl, fun bounded _ => bounded⟩

end GetBuffers

/-- A run whose rounds are bounded never comes to undefined behaviour. -/
theorem getBuffers_defined_iff (setting : Setting) (begun : State) (socket : List Recv) :
    Along (GetBuffers.round setting) (GetBuffers.Bounded setting) begun socket ↔
      ∀ stopped rest, getBuffers setting begun socket = .left stopped rest →
        stopped.reason ≠ .undefined :=
  along_iff_left (fun stopped : Stopped => stopped.reason ≠ .undefined)
    (fun recv _ state => GetBuffers.bounded_iff_defined state recv) begun

/-- In a run every copy stays inside exactly when every round is bounded. -/
theorem getBuffers_copiesInside_iff (setting : Setting) (begun : State) (socket : List Recv) :
    Along (GetBuffers.round setting) (GetBuffers.CopiesInside setting) begun socket ↔
      Along (GetBuffers.round setting) (GetBuffers.Bounded setting) begun socket :=
  along_congr GetBuffers.copiesInside_iff_bounded begun socket

/-- One byte that belongs behind the data area of 100 bytes. -/
def outsidePacket : Packet :=
  { samplePacket 5 with offset := 100 }

/-- The announced length fits, the offset does not. -/
theorem not_copiesInside_outsidePacket :
    GetBuffers.start sampleSetting (fun _ => 0) = .ok sampleBegun ∧
      outsidePacket.bytes.length ≤ packetBufSize ∧
      ¬ Along (GetBuffers.round sampleSetting) (GetBuffers.CopiesInside sampleSetting) sampleBegun
        [outsidePacket.recv] := by
  refine ⟨start_sampleSetting, by decide, fun inside => ?_⟩
  have copy : GetBuffers.roundCopy sampleSetting sampleBegun outsidePacket.recv =
      some ⟨some (0, 0), 100, 1, 21⟩ := by
    decide +kernel
  have room := (inside.1 _ copy).room
  exact absurd room (by decide)

end Dift.Et
