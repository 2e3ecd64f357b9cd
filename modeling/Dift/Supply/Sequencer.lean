import Dift.Disruptor.SingleProducer
import Dift.Supply.Ring

/-!
Owns the supply ring over the sequencer it is built on. `next` is the call of the
`SingleProducerSequencer`, which reads the consumers' sequences one at a time
while they go on releasing, and may store the cursor first. Every run is a run of
the supply ring, where a claim waits for the consumers in one step.
-/

namespace Dift.Supply

open Dift.Foundation Dift.Disruptor

namespace Sequencer

/-- The supply ring with the sequencer in place of the next sequence and the
cursor. -/
structure State where
  sequencer : SingleProducerSequencer
  items : Nat → SupplyItem
  producer : Ring.ProducerStage
  consumers : Nat → Ring.Consumer
  published : List Int

def initial (items : Nat → SupplyItem) : State where
  sequencer := .initial
  items := items
  producer := .idle
  consumers := fun _ => Ring.initialConsumer
  published := []

/-- What the supply ring is about. -/
def State.ring (state : State) : Ring.State where
  items := state.items
  nextSequence := state.sequencer.nextValue + 1
  cursor := state.sequencer.cursor
  producer := state.producer
  consumers := state.consumers
  published := state.published

/-- After a step of the ring, which does not touch the claims. -/
def State.restore (state : State) (after : Ring.State) : State where
  sequencer := state.sequencer.publish after.cursor
  items := after.items
  producer := after.producer
  consumers := after.consumers
  published := after.published

/-- After a step of the sequencer: a claimed sequence is what `next` returns. -/
def State.called (state : State) (result : SingleProducerSequencer × Option Int) : State :=
  { state with
    sequencer := result.1
    producer := (result.2.map Ring.ProducerStage.claimed).getD state.producer }

inductive Action where
  | next
  | readGating (id : Nat)
  | endScan
  | ring (action : Ring.Action)
deriving DecidableEq, Repr

variable (ring : Ring)

/-- The sequence a consumer has given back. -/
def State.gating (state : State) (id : Nat) : Int :=
  (state.consumers id).books.sequence

def step (state : State) : Action → Option State
  | .next =>
      if state.producer = .idle then
        (state.sequencer.begin ring.ringSize ring.consumerCount ⟨false, 1⟩).map state.called
      else none
  | .readGating id => (state.sequencer.readGating id (state.gating id)).map state.called
  | .endScan => (state.sequencer.endScan ring.ringSize ring.consumerCount).map state.called
  | .ring .next => none
  | .ring action => (Ring.step ring state.ring action).map state.restore

/-! ### Steps of the ring -/

variable {ring}

/-- A consumer that goes on without releasing has given back what it had. -/
theorem books_setConsumer (state : Ring.State) (id : Nat) {consumer : Ring.Consumer}
    (same : consumer.books = (state.consumers id).books) (other : Nat) :
    ((state.setConsumer id consumer).consumers other).books = (state.consumers other).books := by
  by_cases isThis : other = id
  · rw [isThis, Ring.State.setConsumer_self, same]
  · rw [Ring.State.setConsumer_of_ne _ isThis]

theorem gating_setConsumer (state : Ring.State) (id : Nat) {consumer : Ring.Consumer}
    (same : consumer.books = (state.consumers id).books) (other : Nat) :
    (state.consumers other).books.sequence ≤
      ((state.setConsumer id consumer).consumers other).books.sequence := by
  rw [books_setConsumer state id same]

/-- The mutex section of a release does not take a sequence back. -/
theorem release_gating_le {before after : Ring.State} (inv : Ring.Inv ring before) {id index : Nat}
    (known : id < ring.consumerCount) (stepped : Ring.release before id index = some after)
    (other : Nat) : (before.consumers other).books.sequence ≤
      (after.consumers other).books.sequence := by
  have own := inv.consumers id known
  unfold Ring.release at stepped
  simp only at stepped
  split at stepped
  case h_2 => cases stepped
  case h_1 taken seq held =>
    rcases own.reads _ (List.mem_of_getElem? held) seq rfl with rfl
    cases stepped
    by_cases isThis : other = id
    · subst isThis
      have member := Ring.Inv.mem_outstanding held
      have fresh : seq ∉ (before.consumers other).released.toFinset := fun released =>
        inv.outstanding_notMem known member (List.mem_toFinset.mp released)
      rw [Ring.State.setConsumer_self]
      exact Books.sequence_le_release own.account (inv.outstanding_bounds known member).1 fresh
    · rw [Ring.State.setConsumer_of_ne _ isThis]

/-- The ring's steps never take a sequence back. -/
theorem gating_le {before after : Ring.State} {action : Ring.Action} (inv : Ring.Inv ring before)
    (stepped : Ring.step ring before action = some after) (id : Nat) :
    (before.consumers id).books.sequence ≤ (after.consumers id).books.sequence := by
  cases action with
  | next =>
      rcases Option.ite_none_right_eq_some.mp stepped with ⟨-, isAfter⟩
      cases isAfter
      exact le_rfl
  | reset => grind [Ring.step, Ring.resetItem, Ring.State.setItem]
  | setProducerSequence => grind [Ring.step, Ring.setProducerSequence, Ring.State.setItem]
  | publish => grind [Ring.step, Ring.publish]
  | waitFor other available =>
      rcases Option.ite_none_right_eq_some.mp stepped with ⟨-, stepped⟩
      simp only [Ring.waitFor] at stepped
      split at stepped
      · cases stepped
      · split at stepped
        · rcases Option.ite_none_right_eq_some.mp stepped with ⟨-, isAfter⟩
          cases isAfter
          refine gating_setConsumer before other ?_ id
          rfl
        · cases stepped
          refine gating_setConsumer before other ?_ id
          rfl
  | setConsumerSequence other =>
      rcases Option.ite_none_right_eq_some.mp stepped with ⟨-, stepped⟩
      rcases Option.ite_none_right_eq_some.mp stepped with ⟨-, isAfter⟩
      cases isAfter
      refine gating_setConsumer (before.setItem _ _) other ?_ id
      rfl
  | setFromConsumerGet other =>
      rcases Option.ite_none_right_eq_some.mp stepped with ⟨-, stepped⟩
      simp only [Ring.setFromConsumerGet] at stepped
      split at stepped
      case h_2 => cases stepped
      case h_1 =>
        cases stepped
        refine gating_setConsumer (before.setItem _ _) other ?_ id
        rfl
  | readFlag other index =>
      rcases Option.ite_none_right_eq_some.mp stepped with ⟨-, stepped⟩
      unfold Ring.readFlag at stepped
      split at stepped
      case h_2 => cases stepped
      case h_1 =>
        cases stepped
        refine gating_setConsumer before other ?_ id
        rfl
  | readSequence other index =>
      rcases Option.ite_none_right_eq_some.mp stepped with ⟨-, stepped⟩
      unfold Ring.readSequence at stepped
      split at stepped
      case h_2 => cases stepped
      case h_1 =>
        cases stepped
        refine gating_setConsumer before other ?_ id
        rfl
  | release other index =>
      rcases Option.ite_none_right_eq_some.mp stepped with ⟨known, stepped⟩
      exact release_gating_le inv known stepped id

/-- Only `next` claims, and only with a claim does the producer do anything. -/
theorem claims_nothing {before after : Ring.State} {action : Ring.Action}
    (stepped : Ring.step ring before action = some after) (other : action ≠ .next) :
    after.nextSequence = before.nextSequence ∧
      (before.producer = .idle → after.producer = .idle) := by
  cases action with
  | next => exact absurd rfl other
  | reset => grind [Ring.step, Ring.resetItem, Ring.State.setItem]
  | setProducerSequence => grind [Ring.step, Ring.setProducerSequence, Ring.State.setItem]
  | publish => grind [Ring.step, Ring.publish]
  | waitFor other available => grind [Ring.step, Ring.waitFor, Ring.State.setConsumer]
  | setConsumerSequence other =>
      grind [Ring.step, Ring.setConsumerSequence, Ring.State.setConsumer, Ring.State.setItem]
  | setFromConsumerGet other =>
      grind [Ring.step, Ring.setFromConsumerGet, Ring.State.setConsumer, Ring.State.setItem]
  | readFlag other index =>
      grind [Ring.step, Ring.readFlag, Ring.setStage, Ring.State.setConsumer]
  | readSequence other index =>
      grind [Ring.step, Ring.readSequence, Ring.setStage, Ring.State.setConsumer]
  | release other index => grind [Ring.step, Ring.release, Ring.State.setConsumer]

/-! ### The simulation -/

/-- How the states of the two correspond: the sequencer's bounds are those of
the consumers' sequences, and its producer makes one call at a time, for one
sequence, and does nothing else meanwhile. -/
structure Corresponds (ring : Ring) (state : State) (above : Ring.State) : Prop where
  same : above = state.ring
  inv : Ring.Inv ring state.ring
  bounds : state.sequencer.Inv ring.ringSize ring.consumerCount state.gating
  calling : ∀ call scan, state.sequencer.stage = .scanning call scan →
    call.n = 1 ∧ state.producer = .idle

theorem corresponds_initial (ring : Ring) (items : Nat → SupplyItem) :
    Corresponds ring (initial items) (Ring.initial items) where
  same := rfl
  inv := Ring.inv_initial ring items
  bounds := SingleProducerSequencer.inv_initial (Int.natCast_nonneg _) fun _ _ => le_rfl
  calling := by
    intro call scan stage
    cases stage

/-- Between calls the cursor is the last claim, so that storing it changes
nothing. -/
theorem Corresponds.cursor_eq {state : State} {above : Ring.State}
    (corresponds : Corresponds ring state above) (idle : state.producer = .idle) :
    state.sequencer.cursor = state.sequencer.nextValue := by
  have producer := corresponds.inv.producer
  unfold Ring.ProducerInv at producer
  simp only [State.ring, idle] at producer
  omega

/-- A step of the sequencer claims as the ring does, or changes nothing the ring
is about. -/
theorem Corresponds.called {state : State} {above : Ring.State}
    (corresponds : Corresponds ring state above) (idle : state.producer = .idle)
    {result : SingleProducerSequencer × Option Int}
    (bounds : result.1.Inv ring.ringSize ring.consumerCount state.gating)
    (returns : SingleProducerSequencer.Returns 1 state.sequencer result)
    (cursor : result.1.cursor = state.sequencer.cursor)
    (calling : ∀ call scan, result.1.stage = .scanning call scan → call.n = 1) :
    ∃ actions above', Machine.run (Ring.step ring) above actions = some above' ∧
      Corresponds ring (state.called result) above' := by
  cases claimed : result.2 with
  | none =>
      rw [SingleProducerSequencer.Returns, claimed] at returns
      have same : (state.called result).ring = state.ring := by
        simp only [State.ring, State.called, claimed, cursor, returns, Option.map_none,
          Option.getD_none]
      refine ⟨[], above, rfl, ?_, ?_, bounds, ?_⟩
      · rw [same]
        exact corresponds.same
      · rw [same]
        exact corresponds.inv
      · intro call scan stage
        refine ⟨calling call scan stage, ?_⟩
        simp only [State.called, claimed, Option.map_none, Option.getD_none]
        exact idle
  | some hi =>
      rw [SingleProducerSequencer.Returns, claimed] at returns
      obtain ⟨-, isHi, value, stage, -⟩ := returns
      have stepped : Ring.step ring state.ring .next = some (state.called result).ring := by
        have room : state.ring.producer = .idle ∧ ∀ id < ring.consumerCount,
            state.ring.nextSequence - ring.ringSize ≤ (state.ring.consumers id).books.sequence := by
          refine ⟨idle, fun id known => ?_⟩
          have lapped := bounds.lapped id known
          simp only [State.gating] at lapped
          simp only [State.ring]
          omega
        have after : (state.called result).ring = { state.ring with
            producer := .claimed state.ring.nextSequence
            nextSequence := state.ring.nextSequence + 1 } := by
          simp only [State.ring, State.called, claimed, cursor, value, isHi, Option.map_some,
            Option.getD_some]
        rw [after]
        exact if_pos room
      refine ⟨[.next], _, ?_, rfl, Ring.step_inv corresponds.inv stepped, bounds, ?_⟩
      · rw [corresponds.same, Machine.run_singleton]
        exact stepped
      · intro call scan isStage
        simp only [State.called] at isStage
        rw [stage] at isStage
        cases isStage

/-- The ring's own steps. -/
theorem Corresponds.restored {state : State} {above : Ring.State}
    (corresponds : Corresponds ring state above) {action : Ring.Action} {after : Ring.State}
    (other : action ≠ .next) (stepped : Ring.step ring state.ring action = some after) :
    ∃ actions above', Machine.run (Ring.step ring) above actions = some above' ∧
      Corresponds ring (state.restore after) above' := by
  have nothing := claims_nothing stepped other
  have same : (state.restore after).ring = after := by
    simp only [State.ring, State.restore, SingleProducerSequencer.publish]
    rw [show state.sequencer.nextValue + 1 = after.nextSequence from nothing.1.symm]
  refine ⟨[action], after, ?_, same.symm, ?_, ?_, ?_⟩
  · rw [corresponds.same, Machine.run_singleton]
    exact stepped
  · rw [same]
    exact Ring.step_inv corresponds.inv stepped
  · exact (corresponds.bounds.publish _).mono fun id _ =>
      gating_le corresponds.inv stepped id
  · intro call scan stage
    have busy := corresponds.calling call scan stage
    exact ⟨busy.1, nothing.2 busy.2⟩

/-- Every step over the sequencer is matched by a run of the supply ring. -/
theorem simulates (ring : Ring) : Machine.Simulates (step ring) (Ring.step ring)
    (Corresponds ring) := by
  intro before after action above corresponds stepped
  cases action with
  | next =>
      rcases Option.ite_none_right_eq_some.mp stepped with ⟨idle, stepped⟩
      rcases Option.map_eq_some_iff.mp stepped with ⟨result, begun, isAfter⟩
      cases isAfter
      obtain ⟨bounds, returns, cursor, calling⟩ :=
        SingleProducerSequencer.begin_inv corresponds.bounds begun
      have last := corresponds.cursor_eq idle
      refine corresponds.called idle bounds returns ?_ ?_
      · rcases cursor with same | stored
        · exact same
        · exact stored.trans last.symm
      · intro call scan stage
        rw [calling call scan stage]
  | readGating id =>
      rcases Option.map_eq_some_iff.mp stepped with ⟨result, read, isAfter⟩
      cases isAfter
      obtain ⟨bounds, nothing, rest, call, scan, next, stage, later⟩ :=
        SingleProducerSequencer.readGating_inv corresponds.bounds read
      have busy := corresponds.calling call scan stage
      refine corresponds.called busy.2 bounds ?_ ?_ ?_
      · rw [SingleProducerSequencer.Returns, nothing, rest]
      · rw [rest]
      · intro other scan isStage
        rw [later] at isStage
        cases isStage
        exact busy.1
  | endScan =>
      rcases Option.map_eq_some_iff.mp stepped with ⟨result, ended, isAfter⟩
      cases isAfter
      obtain ⟨bounds, cursor, call, scan, stage, returns, later⟩ :=
        SingleProducerSequencer.endScan_inv corresponds.bounds ended
      have busy := corresponds.calling call scan stage
      rw [busy.1] at returns
      refine corresponds.called busy.2 bounds returns cursor ?_
      intro other next isStage
      rw [later other next isStage]
      exact busy.1
  | ring action =>
      have other : action ≠ .next := by
        intro isNext
        rw [isNext] at stepped
        cases stepped
      have ringStep : (Ring.step ring before.ring action).map before.restore = some after := by
        rw [← stepped]
        cases action with
        | next => exact absurd rfl other
        | _ => rfl
      rcases Option.map_eq_some_iff.mp ringStep with ⟨ringAfter, ringStepped, isAfter⟩
      cases isAfter
      exact corresponds.restored other ringStepped

/-! ### Every run -/

/-- A ring of one slot and two consumers, whose second claim has to wait. -/
def sample : Ring where
  ringSize := 1
  consumerCount := 2
  reset := fun item => item
  positive := by decide
  small := by decide

/-- One consumer gets an item and releases it. -/
def sampleConsume (id : Nat) : List Action :=
  [.ring (.waitFor id 0), .ring (.setConsumerSequence id), .ring (.setFromConsumerGet id),
    .ring (.readFlag id 0), .ring (.readSequence id 0), .ring (.release id 0)]

/-- The second `next` reads the second consumer's sequence before the release,
and scans again. -/
def sampleActions : List Action :=
  [.next, .ring .reset, .ring .setProducerSequence, .ring .publish, .next, .readGating 1] ++
    sampleConsume 0 ++ sampleConsume 1 ++
    [.readGating 0, .endScan, .readGating 0, .readGating 1, .endScan]

end Sequencer

end Dift.Supply
