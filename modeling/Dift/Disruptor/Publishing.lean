import Dift.Disruptor.SingleProducer

/-!
Owns the producer's side of a ring buffer with a `SingleProducerSequencer`:
`publishEvent` and `publishEvents` claim, let the translators write, and publish,
whatever consumers the gating sequences belong to. Other threads may move the gating
sequences between any two steps.
-/

namespace Dift.Disruptor.Publishing

open Dift.Foundation

/-- A buffer whose size is a power of two, and the number of its gating sequences. -/
structure Buffer where
  indexShift : Nat
  gatingCount : Nat
  small : indexShift ≤ 30

namespace Buffer

def bufferSize (buffer : Buffer) : Int := 2 ^ buffer.indexShift

def index (buffer : Buffer) (sequence : Int) : Nat :=
  calculateIndex buffer.indexShift sequence

theorem bufferSize_pos (buffer : Buffer) : 0 < buffer.bufferSize := by
  rw [bufferSize]
  positivity

end Buffer

/-- The producer has nothing claimed, or owns what it claimed. -/
inductive Producer where
  | idle
  | owning (lo hi : Int)
deriving DecidableEq, Repr

/-- The last field records what was last written for each sequence. -/
structure State (β : Type*) where
  sequencer : SingleProducerSequencer
  entries : Nat → β
  producer : Producer
  content : Int → β

inductive Action (β : Type*) where
  | call (call : SingleProducer.Call)
  | readGating (id : Nat)
  | endScan
  | write (sequence : Int) (event : β)
  | publish

variable {β : Type*} (buffer : Buffer)

def initial (entries : Nat → β) : State β where
  sequencer := .initial
  entries := entries
  producer := .idle
  content := fun sequence => entries (buffer.index sequence)

def State.cursor (state : State β) : Int := state.sequencer.cursor

def State.entry (state : State β) (sequence : Int) : β :=
  state.entries (buffer.index sequence)

/-- After a step of the sequencer. What the slots of a claim hold counts as the content
of its sequences, since a translator that throws leaves them as they are. -/
def State.called (state : State β) (result : SingleProducerSequencer × Option Int) : State β :=
  match result.2 with
  | none => { state with sequencer := result.1 }
  | some hi => { state with
      sequencer := result.1
      producer := .owning (state.sequencer.nextValue + 1) hi
      content := fun sequence =>
        if state.sequencer.nextValue < sequence ∧ sequence ≤ hi then
          state.entry buffer sequence
        else state.content sequence }

def call (state : State β) (call : SingleProducer.Call) : Option (State β) :=
  if state.producer = .idle then
    (state.sequencer.begin buffer.bufferSize buffer.gatingCount call).map (state.called buffer)
  else none

/-- A translator writes the event of a sequence that the producer owns. -/
def write (state : State β) (sequence : Int) (event : β) : Option (State β) :=
  match state.producer with
  | .owning lo hi =>
      if lo ≤ sequence ∧ sequence ≤ hi then
        some { state with
          entries := Function.update state.entries (buffer.index sequence) event
          content := Function.update state.content sequence event }
      else none
  | .idle => none

def publish (state : State β) : Option (State β) :=
  match state.producer with
  | .owning _ hi => some { state with sequencer := state.sequencer.publish hi, producer := .idle }
  | .idle => none

/-- A step, where the gating sequences are as given. -/
def step (gating : Nat → Int) (state : State β) : Action β → Option (State β)
  | .call call => Publishing.call buffer state call
  | .readGating id => (state.sequencer.readGating id (gating id)).map (state.called buffer)
  | .endScan =>
      (state.sequencer.endScan buffer.bufferSize buffer.gatingCount).map (state.called buffer)
  | .write sequence event => write buffer state sequence event
  | .publish => publish state

/-! ### What the producer keeps -/

/-- Between calls everything that was claimed is published; a claim is what comes after
what is published. -/
def Producer.Agrees (sequencer : SingleProducerSequencer) : Producer → Prop
  | .idle => sequencer.cursor = sequencer.nextValue
  | .owning lo hi => lo = sequencer.cursor + 1 ∧ lo ≤ hi ∧ hi = sequencer.nextValue ∧
      sequencer.stage = .idle

structure Inv (buffer : Buffer) (gating : Nat → Int) (state : State β) : Prop where
  sequencer : state.sequencer.Inv buffer.bufferSize buffer.gatingCount gating
  producer : state.producer.Agrees state.sequencer
  slots : ∀ sequence, state.sequencer.nextValue - buffer.bufferSize < sequence →
    sequence ≤ state.sequencer.nextValue → state.entry buffer sequence = state.content sequence

/-- What every step keeps, besides the invariant: what is published stays as it is. -/
structure Follows (buffer : Buffer) (gating : Nat → Int) (before after : State β) : Prop where
  inv : Inv buffer gating after
  published : before.cursor ≤ after.cursor
  content : ∀ sequence, sequence ≤ before.cursor →
    after.content sequence = before.content sequence

variable {buffer} {gating : Nat → Int}

theorem inv_initial (entries : Nat → β)
    (low : ∀ id < buffer.gatingCount, -1 ≤ gating id) :
    Inv buffer gating (initial buffer entries) where
  sequencer := SingleProducerSequencer.inv_initial buffer.bufferSize_pos.le low
  producer := rfl
  slots := fun _ _ _ => rfl

theorem Inv.mono {later : Nat → Int} {state : State β} (inv : Inv buffer gating state)
    (grown : ∀ id < buffer.gatingCount, gating id ≤ later id) : Inv buffer later state where
  sequencer := inv.sequencer.mono grown
  producer := inv.producer
  slots := inv.slots

theorem Inv.cursor_le {state : State β} (inv : Inv buffer gating state) :
    state.cursor ≤ state.sequencer.nextValue := by
  have producer := inv.producer
  rw [State.cursor]
  cases is : state.producer with
  | idle =>
      rw [is] at producer
      exact le_of_eq producer
  | owning lo hi =>
      rw [is] at producer
      obtain ⟨isLo, isRange, isHi, -⟩ := producer
      omega

/-- The published sequences that are ahead of a gating sequence are in their slots. -/
theorem Inv.slot {state : State β} (inv : Inv buffer gating state) {id : Nat}
    (known : id < buffer.gatingCount) {sequence : Int} (ahead : gating id < sequence)
    (published : sequence ≤ state.cursor) :
    state.entry buffer sequence = state.content sequence :=
  inv.slots sequence ((inv.sequencer.lapped id known).trans_lt ahead)
    (published.trans inv.cursor_le)

/-- While the gating sequences are read, the producer owns nothing. -/
theorem Inv.producer_idle {state : State β} (inv : Inv buffer gating state)
    {call : SingleProducer.Call} {scan : Scan Nat Int}
    (scanning : state.sequencer.stage = .scanning call scan) : state.producer = .idle := by
  have producer := inv.producer
  cases is : state.producer with
  | idle => rfl
  | owning lo hi =>
      rw [is] at producer
      obtain ⟨-, -, -, idle⟩ := producer
      rw [scanning] at idle
      cases idle

/-- A step of a call between publications. -/
theorem Inv.called {state : State β} (inv : Inv buffer gating state) {n : Int}
    {result : SingleProducerSequencer × Option Int}
    (bounds : result.1.Inv buffer.bufferSize buffer.gatingCount gating)
    (idle : state.producer = .idle) (cursor : result.1.cursor = state.sequencer.cursor)
    (returns : SingleProducerSequencer.Returns n state.sequencer result) :
    Follows buffer gating state (state.called buffer result) := by
  have producer := inv.producer
  rw [idle] at producer
  have shown : state.sequencer.cursor = state.sequencer.nextValue := producer
  rcases result with ⟨sequencer, claimed⟩
  cases claimed with
  | none =>
      have same : sequencer.nextValue = state.sequencer.nextValue := returns
      have agrees : state.producer.Agrees sequencer := by
        rw [idle]
        exact cursor.trans (shown.trans same.symm)
      have slots := inv.slots
      rw [← same] at slots
      exact ⟨⟨bounds, agrees, slots⟩, cursor.ge, fun _ _ => rfl⟩
  | some hi =>
      obtain ⟨positive, isHi, isNext, stage, -⟩ := returns
      have agrees : (Producer.owning (state.sequencer.nextValue + 1) hi).Agrees sequencer := by
        refine ⟨?_, ?_, isNext.symm, stage⟩
        · rw [cursor, shown]
        · omega
      refine ⟨⟨bounds, agrees, ?_⟩, cursor.ge, ?_⟩
      · intro sequence ahead atMost
        simp only [State.called] at ahead atMost ⊢
        rw [isNext] at ahead atMost
        by_cases isNew : state.sequencer.nextValue < sequence
        · rw [if_pos ⟨isNew, atMost⟩]
          rfl
        · rw [if_neg fun new => isNew new.1]
          exact inv.slots sequence (by omega) (not_lt.mp isNew)
      · intro sequence old
        rw [State.cursor] at old
        exact if_neg fun new => by omega

theorem call_follows {before after : State β} {call : SingleProducer.Call}
    (inv : Inv buffer gating before) (stepped : Publishing.call buffer before call = some after) :
    Follows buffer gating before after := by
  rcases Option.ite_none_right_eq_some.mp stepped with ⟨idle, stepped⟩
  rcases Option.map_eq_some_iff.mp stepped with ⟨result, begun, isAfter⟩
  cases isAfter
  obtain ⟨bounds, returns, cursor, -⟩ := SingleProducerSequencer.begin_inv inv.sequencer begun
  have producer := inv.producer
  rw [idle] at producer
  have shown : before.sequencer.cursor = before.sequencer.nextValue := producer
  rw [← shown, or_self] at cursor
  exact inv.called bounds idle cursor returns

theorem readGating_follows {before after : State β} {id : Nat} (inv : Inv buffer gating before)
    (stepped : step buffer gating before (.readGating id) = some after) :
    Follows buffer gating before after := by
  rcases Option.map_eq_some_iff.mp stepped with ⟨result, read, isAfter⟩
  cases isAfter
  obtain ⟨bounds, nothing, rest, call, scan, -, scanning, -⟩ :=
    SingleProducerSequencer.readGating_inv inv.sequencer read
  have returns : SingleProducerSequencer.Returns 0 before.sequencer result := by
    rw [SingleProducerSequencer.Returns, nothing, rest]
  exact inv.called bounds (inv.producer_idle scanning) (by rw [rest]) returns

theorem endScan_follows {before after : State β} (inv : Inv buffer gating before)
    (stepped : step buffer gating before .endScan = some after) :
    Follows buffer gating before after := by
  rcases Option.map_eq_some_iff.mp stepped with ⟨result, ended, isAfter⟩
  cases isAfter
  obtain ⟨bounds, cursor, call, scan, scanning, returns, -⟩ :=
    SingleProducerSequencer.endScan_inv inv.sequencer ended
  exact inv.called bounds (inv.producer_idle scanning) cursor returns

/-- Writing does not touch the slots of other sequences of the last lap: a claim is less
than a lap ahead of the gating sequence that is not ahead of the cursor. -/
theorem write_follows {before after : State β} {sequence : Int} {event : β}
    (inv : Inv buffer gating before)
    (behind : ∃ id < buffer.gatingCount, gating id ≤ before.cursor)
    (stepped : write buffer before sequence event = some after) :
    Follows buffer gating before after := by
  have producer := inv.producer
  unfold write at stepped
  split at stepped
  case h_2 => cases stepped
  case h_1 lo hi owning =>
    rcases Option.ite_none_right_eq_some.mp stepped with ⟨owned, isAfter⟩
    cases isAfter
    rw [owning] at producer
    obtain ⟨isLo, isRange, isHi, -⟩ := id producer
    refine ⟨⟨inv.sequencer, owning ▸ producer, ?_⟩, le_rfl, ?_⟩
    · intro other ahead atMost
      simp only [State.entry] at ahead atMost ⊢
      by_cases isThis : other = sequence
      · rw [isThis, Function.update_self, Function.update_self]
      · obtain ⟨id, known, behind⟩ := behind
        have lapped := inv.sequencer.lapped id known
        have size : buffer.bufferSize = 2 ^ buffer.indexShift := rfl
        rw [State.cursor] at behind
        have apart : buffer.index other ≠ buffer.index sequence :=
          calculateIndex_ne buffer.small isThis (by omega) (by omega)
        rw [Function.update_of_ne apart, Function.update_of_ne isThis]
        exact inv.slots other ahead atMost
    · intro other old
      rw [State.cursor] at old
      exact Function.update_of_ne (by omega) _ _

theorem publish_follows {before after : State β} (inv : Inv buffer gating before)
    (stepped : publish before = some after) : Follows buffer gating before after := by
  have producer := inv.producer
  unfold publish at stepped
  split at stepped
  case h_2 => cases stepped
  case h_1 lo hi owning =>
    cases stepped
    rw [owning] at producer
    obtain ⟨isLo, isRange, isHi, -⟩ := producer
    have published : before.sequencer.cursor ≤ hi := by omega
    exact ⟨⟨inv.sequencer.publish hi, isHi, inv.slots⟩, published, fun _ _ => rfl⟩

theorem step_follows {before after : State β} {action : Action β} (inv : Inv buffer gating before)
    (behind : ∃ id < buffer.gatingCount, gating id ≤ before.cursor)
    (stepped : step buffer gating before action = some after) :
    Follows buffer gating before after := by
  cases action with
  | call call => exact call_follows inv stepped
  | readGating id => exact readGating_follows inv stepped
  | endScan => exact endScan_follows inv stepped
  | write sequence event => exact write_follows inv behind stepped
  | publish => exact publish_follows inv stepped

end Dift.Disruptor.Publishing
