import Dift.Foundation.Machine
import Dift.Foundation.Scan
import Dift.Disruptor.Slots

/-!
Owns `SingleProducerSequencer`: the calls of its one producer, an access to shared
state at a time, and a machine around it with any number of consumers that wait
for the cursor and then raise their gating sequence. The slow path of `next`
stores its own last claim in the cursor before it waits; when the producer still
holds sequences it has not published, this shows them to the consumers.
-/

namespace Dift.Disruptor

open Dift.Foundation

namespace SingleProducer

/-- A call of `next`, or of `tryNext` when it is only an attempt. -/
structure Call where
  attempt : Bool
  n : Int
deriving DecidableEq, Repr

/-- Between calls, or taking the minimum of the gating sequences. -/
inductive Stage where
  | idle
  | scanning (call : Call) (scan : Scan Nat Int)
deriving DecidableEq, Repr

end SingleProducer

/-- The sequencer's fields, and where its producer is. -/
structure SingleProducerSequencer where
  nextValue : Int
  cachedValue : Int
  cursor : Int
  stage : SingleProducer.Stage
deriving DecidableEq, Repr

namespace SingleProducerSequencer

open SingleProducer

def initial : SingleProducerSequencer where
  nextValue := -1
  cachedValue := -1
  cursor := -1
  stage := .idle

variable (bufferSize : Int) (gatingCount : Nat)

/-- What a call would have to leave behind. -/
def wrapPoint (sequencer : SingleProducerSequencer) (n : Int) : Int :=
  sequencer.nextValue + n - bufferSize

/-- The gating sequences have to be read. -/
def Slow (sequencer : SingleProducerSequencer) (n : Int) : Prop :=
  sequencer.wrapPoint bufferSize n > sequencer.cachedValue ∨
    sequencer.cachedValue > sequencer.nextValue

instance (sequencer : SingleProducerSequencer) (n : Int) :
    Decidable (sequencer.Slow bufferSize n) :=
  inferInstanceAs (Decidable (_ ∨ _))

/-- The arguments that throw. -/
def Refused (call : Call) : Prop :=
  call.n < 1 ∨ call.attempt = false ∧ bufferSize < call.n

instance (call : Call) : Decidable (Refused bufferSize call) :=
  inferInstanceAs (Decidable (_ ∨ _))

/-- The claim, and the sequence that the call returns. -/
def claim (sequencer : SingleProducerSequencer) (n : Int) :
    SingleProducerSequencer × Option Int :=
  ({ sequencer with nextValue := sequencer.nextValue + n, stage := .idle },
    some (sequencer.nextValue + n))

/-- A call of `next` or `tryNext` up to the scan; `next` stores the cursor
first. -/
def begin (sequencer : SingleProducerSequencer) (call : Call) :
    Option (SingleProducerSequencer × Option Int) :=
  if sequencer.stage ≠ .idle then none
  else if Refused bufferSize call then some (sequencer, none)
  else if sequencer.Slow bufferSize call.n then
    some ({ sequencer with
      cursor := if call.attempt then sequencer.cursor else sequencer.nextValue
      stage := .scanning call ⟨List.range gatingCount, sequencer.nextValue⟩ }, none)
  else some (sequencer.claim call.n)

def readGating (sequencer : SingleProducerSequencer) (id : Nat) (value : Int) :
    Option (SingleProducerSequencer × Option Int) :=
  match sequencer.stage with
  | .scanning call scan =>
      (scan.read id value).map fun after =>
        ({ sequencer with stage := .scanning call after }, none)
  | .idle => none

/-- `next` scans again as long as there is no room, `tryNext` caches the minimum
and throws. -/
def endScan (sequencer : SingleProducerSequencer) :
    Option (SingleProducerSequencer × Option Int) :=
  match sequencer.stage with
  | .scanning call ⟨[], minimum⟩ =>
      if sequencer.wrapPoint bufferSize call.n > minimum then
        if call.attempt then
          some ({ sequencer with cachedValue := minimum, stage := .idle }, none)
        else
          some ({ sequencer with
            stage := .scanning call ⟨List.range gatingCount, sequencer.nextValue⟩ }, none)
      else some ({ sequencer with cachedValue := minimum }.claim call.n)
  | _ => none

/-- `publish(lo, hi)` is `publish(hi)`. -/
def publish (sequencer : SingleProducerSequencer) (hi : Int) : SingleProducerSequencer :=
  { sequencer with cursor := hi }

/-! ### What the sequencer keeps -/

/-- The cached value and the minimum of a scan are below the gating sequences,
and no claim is more than the buffer ahead of them. -/
structure Inv (gating : Nat → Int) (sequencer : SingleProducerSequencer) : Prop where
  start : -1 ≤ sequencer.nextValue
  cache : ∀ id < gatingCount, sequencer.cachedValue ≤ gating id
  lapped : ∀ id < gatingCount, sequencer.nextValue - bufferSize ≤ gating id
  scan : ∀ call scan, sequencer.stage = .scanning call scan → 1 ≤ call.n ∧
    scan.Below (· < gatingCount) gating

variable {bufferSize gatingCount}

theorem inv_initial {gating : Nat → Int} (nonneg : 0 ≤ bufferSize)
    (low : ∀ id < gatingCount, -1 ≤ gating id) :
    Inv bufferSize gatingCount gating initial where
  start := le_rfl
  cache := low
  lapped := by
    intro id known
    have atLeast := low id known
    simp only [initial]
    omega
  scan := by
    intro call scan stage
    cases stage

theorem Inv.mono {gating later : Nat → Int} {sequencer : SingleProducerSequencer}
    (inv : Inv bufferSize gatingCount gating sequencer)
    (grown : ∀ id < gatingCount, gating id ≤ later id) :
    Inv bufferSize gatingCount later sequencer where
  start := inv.start
  cache := fun id known => (inv.cache id known).trans (grown id known)
  lapped := fun id known => (inv.lapped id known).trans (grown id known)
  scan := by
    intro call scan stage
    have knows := inv.scan call scan stage
    exact ⟨knows.1, knows.2.mono grown⟩

theorem Inv.publish {gating : Nat → Int} {sequencer : SingleProducerSequencer}
    (inv : Inv bufferSize gatingCount gating sequencer) (hi : Int) :
    Inv bufferSize gatingCount gating (sequencer.publish hi) where
  start := inv.start
  cache := inv.cache
  lapped := inv.lapped
  scan := inv.scan

/-- What a step of a call returns is what it claimed. -/
def Returns (n : Int) (before : SingleProducerSequencer)
    (result : SingleProducerSequencer × Option Int) : Prop :=
  match result.2 with
  | none => result.1.nextValue = before.nextValue
  | some hi => 1 ≤ n ∧ hi = before.nextValue + n ∧ result.1.nextValue = hi ∧
      result.1.stage = .idle ∧ result.1.cursor = before.cursor

theorem Inv.claim {gating : Nat → Int} {sequencer : SingleProducerSequencer} {n : Int}
    (inv : Inv bufferSize gatingCount gating sequencer) (positive : 1 ≤ n)
    (room : ∀ id < gatingCount, sequencer.wrapPoint bufferSize n ≤ gating id) :
    Inv bufferSize gatingCount gating (sequencer.claim n).1 where
  start := by
    have start := inv.start
    simp only [SingleProducerSequencer.claim]
    omega
  cache := inv.cache
  lapped := room
  scan := by
    intro call scan stage
    cases stage

theorem one_le_of_not_refused {call : Call} (accepted : ¬ Refused bufferSize call) :
    1 ≤ call.n := by
  rw [Refused, not_or, not_lt] at accepted
  exact accepted.1

theorem begin_inv {gating : Nat → Int} {before : SingleProducerSequencer} {call : Call}
    {result : SingleProducerSequencer × Option Int}
    (inv : Inv bufferSize gatingCount gating before)
    (stepped : before.begin bufferSize gatingCount call = some result) :
    Inv bufferSize gatingCount gating result.1 ∧ Returns call.n before result ∧
      (result.1.cursor = before.cursor ∨ result.1.cursor = before.nextValue) ∧
      ∀ other scan, result.1.stage = .scanning other scan → other = call := by
  unfold begin at stepped
  split at stepped
  case isTrue => cases stepped
  case isFalse idle =>
    split at stepped
    case isTrue =>
      cases stepped
      refine ⟨inv, rfl, .inl rfl, ?_⟩
      intro other scan stage
      exact absurd stage (by rw [not_not.mp idle]; nofun)
    case isFalse accepted =>
      have positive := one_le_of_not_refused accepted
      split at stepped
      case isTrue =>
        cases stepped
        refine ⟨⟨inv.start, inv.cache, inv.lapped, ?_⟩, rfl, ?_, ?_⟩
        · intro other scan stage
          cases stage
          exact ⟨positive, Scan.below_start (fun id known => List.mem_range.mpr known) _ _⟩
        · cases call.attempt with
          | true => exact .inl rfl
          | false => exact .inr rfl
        · intro other scan stage
          cases stage
          rfl
      case isFalse fast =>
        cases stepped
        rw [Slow, not_or, not_lt] at fast
        refine ⟨inv.claim positive fun id known => fast.1.trans (inv.cache id known),
          ⟨positive, rfl, rfl, rfl, rfl⟩, .inl rfl, ?_⟩
        intro other scan stage
        cases stage

theorem readGating_inv {gating : Nat → Int} {before : SingleProducerSequencer} {id : Nat}
    {result : SingleProducerSequencer × Option Int}
    (inv : Inv bufferSize gatingCount gating before)
    (stepped : before.readGating id (gating id) = some result) :
    Inv bufferSize gatingCount gating result.1 ∧ result.2 = none ∧
      result.1 = { before with stage := result.1.stage } ∧
      ∃ call scan after, before.stage = .scanning call scan ∧
        result.1.stage = .scanning call after := by
  unfold readGating at stepped
  split at stepped
  case h_2 => cases stepped
  case h_1 call scan stage =>
    rcases Option.map_eq_some_iff.mp stepped with ⟨after, read, isResult⟩
    cases isResult
    have knows := inv.scan call scan stage
    refine ⟨⟨inv.start, inv.cache, inv.lapped, ?_⟩, rfl, rfl, call, scan, after, stage, rfl⟩
    intro other next isStage
    cases isStage
    exact ⟨knows.1, (knows.2.read read).1⟩

theorem endScan_inv {gating : Nat → Int} {before : SingleProducerSequencer}
    {result : SingleProducerSequencer × Option Int}
    (inv : Inv bufferSize gatingCount gating before)
    (stepped : before.endScan bufferSize gatingCount = some result) :
    Inv bufferSize gatingCount gating result.1 ∧ result.1.cursor = before.cursor ∧
      ∃ call scan, before.stage = .scanning call scan ∧ Returns call.n before result ∧
        ∀ other later, result.1.stage = .scanning other later → other = call := by
  unfold endScan at stepped
  split at stepped
  case h_2 => cases stepped
  case h_1 call minimum stage =>
    have knows := inv.scan call _ stage
    have below := knows.2.all rfl
    have cached : Inv bufferSize gatingCount gating { before with cachedValue := minimum } :=
      ⟨inv.start, below, inv.lapped, inv.scan⟩
    split at stepped
    case isTrue =>
      split at stepped
      · cases stepped
        refine ⟨⟨inv.start, below, inv.lapped, ?_⟩, rfl, call, _, stage, rfl, ?_⟩
        · intro other scan isStage
          cases isStage
        · intro other scan isStage
          cases isStage
      · cases stepped
        refine ⟨⟨inv.start, inv.cache, inv.lapped, ?_⟩, rfl, call, _, stage, rfl, ?_⟩
        · intro other scan isStage
          cases isStage
          exact ⟨knows.1, Scan.below_start (fun id known => List.mem_range.mpr known) _ _⟩
        · intro other scan isStage
          cases isStage
          rfl
    case isFalse room =>
      cases stepped
      rw [not_lt] at room
      refine ⟨cached.claim knows.1 fun id known => room.trans (below id known), rfl, call, _, stage,
        ⟨knows.1, rfl, rfl, rfl, rfl⟩, ?_⟩
      intro other scan isStage
      cases isStage

end SingleProducerSequencer

/-! ### Batches, claimed ahead and published in order -/

namespace SingleProducer

/-- A consumer: the cursor it was shown by its last wait, and the sequence it
has given back. -/
structure Consumer where
  available : Int
  sequence : Int
deriving DecidableEq, Repr

/-- The sequencer with its consumers. `published` records what the producer
published. -/
structure State where
  sequencer : SingleProducerSequencer
  consumers : Nat → Consumer
  published : List Int

def initial : State where
  sequencer := .initial
  consumers := fun _ => ⟨-1, -1⟩
  published := []

inductive Action where
  | call (call : Call)
  | readGating (id : Nat)
  | endScan
  | publish (lo hi : Int)
  | waitFor (id : Nat)
  | release (id : Nat) (sequence : Int)
deriving DecidableEq, Repr

variable (bufferSize : Int) (gatingCount : Nat)

def State.called (state : State) (result : SingleProducerSequencer × Option Int) : State :=
  { state with sequencer := result.1 }

/-- Between calls the producer publishes what it has claimed. -/
def publish (state : State) (lo hi : Int) : Option State :=
  if state.sequencer.stage = .idle ∧ 0 ≤ lo ∧ lo ≤ hi ∧ hi ≤ state.sequencer.nextValue then
    some { state with
      sequencer := state.sequencer.publish hi
      published := state.published ++ sequences lo hi }
  else none

def State.setConsumer (state : State) (id : Nat) (consumer : Consumer) : State :=
  { state with consumers := Function.update state.consumers id consumer }

def waitFor (state : State) (id : Nat) : State :=
  state.setConsumer id { state.consumers id with available := state.sequencer.cursor }

def release (state : State) (id : Nat) (sequence : Int) : Option State :=
  if (state.consumers id).sequence < sequence ∧ sequence ≤ (state.consumers id).available then
    some (state.setConsumer id { state.consumers id with sequence := sequence })
  else none

def step (state : State) : Action → Option State
  | .call call => (state.sequencer.begin bufferSize gatingCount call).map state.called
  | .readGating id =>
      (state.sequencer.readGating id (state.consumers id).sequence).map state.called
  | .endScan => (state.sequencer.endScan bufferSize gatingCount).map state.called
  | .publish lo hi => publish state lo hi
  | .waitFor id => if id < gatingCount then some (waitFor state id) else none
  | .release id sequence => if id < gatingCount then release state id sequence else none

/-- The producer publishes in the order of its claims, leaving nothing out. -/
def InOrder (state : State) : Action → Prop
  | .publish lo _ => lo = state.published.length
  | _ => True

/-- A call of `next` that takes the slow path while claimed sequences are not
published. -/
def Exposes (state : State) : Action → Prop
  | .call call => call.attempt = false ∧ state.sequencer.stage = .idle ∧
      ¬ SingleProducerSequencer.Refused bufferSize call ∧
      state.sequencer.Slow bufferSize call.n ∧
      state.published.length ≤ state.sequencer.nextValue
  | _ => False

/-- The cursor shows only what is published. -/
def Shown (state : State) : Prop :=
  ∀ sequence, 0 ≤ sequence → sequence ≤ state.sequencer.cursor → sequence ∈ state.published

/-- What is published is the first of what is claimed, and the cursor is its
end. -/
structure Ordered (state : State) : Prop where
  published : state.published = sequences 0 (state.published.length - 1)
  cursor : state.sequencer.cursor = state.published.length - 1
  claimed : state.published.length - 1 ≤ state.sequencer.nextValue

theorem ordered_initial : Ordered initial where
  published := rfl
  cursor := rfl
  claimed := le_rfl

theorem Ordered.shown {state : State} (ordered : Ordered state) : Shown state := by
  intro sequence nonneg atMost
  rw [ordered.published, mem_sequences]
  rw [ordered.cursor] at atMost
  exact ⟨nonneg, atMost⟩

variable {bufferSize gatingCount}

/-- A step of a call that keeps the cursor, or stores what it was. -/
theorem Ordered.called {state : State} (ordered : Ordered state)
    {result : SingleProducerSequencer × Option Int}
    (cursor : result.1.cursor = state.sequencer.cursor)
    (grows : state.sequencer.nextValue ≤ result.1.nextValue) : Ordered (state.called result) where
  published := ordered.published
  cursor := cursor.trans ordered.cursor
  claimed := ordered.claimed.trans grows

theorem length_sequences {lo hi : Int} (isRange : lo ≤ hi) :
    ((sequences lo hi).length : Int) = hi + 1 - lo := by
  rw [sequences, List.length_map, List.length_range]
  omega

theorem Ordered.publish {state after : State} (ordered : Ordered state) {lo hi : Int}
    (inOrder : lo = state.published.length) (stepped : publish state lo hi = some after) :
    Ordered after := by
  rcases Option.ite_none_right_eq_some.mp stepped with ⟨⟨-, nonneg, isRange, claimed⟩, isAfter⟩
  cases isAfter
  have length : ((state.published ++ sequences lo hi).length : Int) = hi + 1 := by
    rw [List.length_append, Nat.cast_add, length_sequences isRange, inOrder]
    ring
  refine ⟨?_, ?_, ?_⟩
  · simp only [length, add_sub_cancel_right]
    have whole := sequences_append (show (0 : Int) ≤ (state.published.length : Int) - 1 + 1 by omega)
      (show (state.published.length : Int) - 1 ≤ hi by omega)
    rw [← ordered.published, sub_add_cancel, ← inOrder] at whole
    exact whole
  · simp only [length]
    exact (add_sub_cancel_right hi 1).symm
  · simp only [length, add_sub_cancel_right]
    exact claimed

def State.gating (state : State) (id : Nat) : Int :=
  (state.consumers id).sequence

/-- The sequencer's bounds are kept whatever is published. -/
theorem bounds_kept {before after : State} {action : Action}
    (bounds : before.sequencer.Inv bufferSize gatingCount before.gating)
    (stepped : step bufferSize gatingCount before action = some after) :
    after.sequencer.Inv bufferSize gatingCount after.gating := by
  cases action with
  | call call =>
      rcases Option.map_eq_some_iff.mp stepped with ⟨result, begun, isAfter⟩
      cases isAfter
      exact (SingleProducerSequencer.begin_inv bounds begun).1
  | readGating id =>
      rcases Option.map_eq_some_iff.mp stepped with ⟨result, read, isAfter⟩
      cases isAfter
      exact (SingleProducerSequencer.readGating_inv bounds read).1
  | endScan =>
      rcases Option.map_eq_some_iff.mp stepped with ⟨result, ended, isAfter⟩
      cases isAfter
      exact (SingleProducerSequencer.endScan_inv bounds ended).1
  | publish lo hi =>
      rcases Option.ite_none_right_eq_some.mp stepped with ⟨-, isAfter⟩
      cases isAfter
      exact bounds.publish hi
  | waitFor id =>
      rcases Option.ite_none_right_eq_some.mp stepped with ⟨-, isAfter⟩
      cases isAfter
      apply bounds.mono
      intro other known
      simp only [State.gating, waitFor, State.setConsumer, Function.update_apply]
      split
      case isTrue isThis => rw [isThis]
      case isFalse => exact le_rfl
  | release id sequence =>
      rcases Option.ite_none_right_eq_some.mp stepped with ⟨-, stepped⟩
      rcases Option.ite_none_right_eq_some.mp stepped with ⟨forward, isAfter⟩
      cases isAfter
      apply bounds.mono
      intro other known
      simp only [State.gating, State.setConsumer, Function.update_apply]
      split
      case isTrue isThis =>
        rw [isThis]
        exact forward.1.le
      case isFalse => exact le_rfl

theorem returns_le {n : Int} {before : SingleProducerSequencer}
    {result : SingleProducerSequencer × Option Int}
    (returns : SingleProducerSequencer.Returns n before result) :
    before.nextValue ≤ result.1.nextValue := by
  unfold SingleProducerSequencer.Returns at returns
  split at returns
  · exact returns.ge
  · obtain ⟨positive, isHi, value, -⟩ := returns
    omega

/-- What a call does to the cursor. -/
theorem begin_cursor {before : SingleProducerSequencer} {call : Call}
    {result : SingleProducerSequencer × Option Int}
    (stepped : before.begin bufferSize gatingCount call = some result) :
    (call.attempt = false ∧ before.stage = .idle ∧
        ¬ SingleProducerSequencer.Refused bufferSize call ∧ before.Slow bufferSize call.n ∧
        result.1.cursor = before.nextValue) ∨
      result.1.cursor = before.cursor := by
  unfold SingleProducerSequencer.begin at stepped
  split at stepped
  case isTrue => cases stepped
  case isFalse idle =>
    split at stepped
    case isTrue =>
      cases stepped
      exact .inr rfl
    case isFalse accepted =>
      split at stepped
      case isTrue slow =>
        cases stepped
        cases attempt : call.attempt with
        | true => exact .inr rfl
        | false => exact .inl ⟨rfl, not_not.mp idle, accepted, slow, rfl⟩
      case isFalse =>
        cases stepped
        exact .inr rfl

/-- Steps that expose nothing keep the order. -/
theorem ordered_kept {before after : State} {action : Action} (ordered : Ordered before)
    (bounds : before.sequencer.Inv bufferSize gatingCount before.gating)
    (inOrder : InOrder before action) (hidden : ¬ Exposes bufferSize before action)
    (stepped : step bufferSize gatingCount before action = some after) : Ordered after := by
  cases action with
  | call call =>
      rcases Option.map_eq_some_iff.mp stepped with ⟨result, begun, isAfter⟩
      cases isAfter
      have returns := (SingleProducerSequencer.begin_inv bounds begun).2.1
      refine ordered.called ?_ (returns_le returns)
      rcases begin_cursor begun with slow | same
      · obtain ⟨isNext, idle, accepted, slow, stored⟩ := slow
        have nothing : ¬ (before.published.length : Int) ≤ before.sequencer.nextValue :=
          fun pending => hidden ⟨isNext, idle, accepted, slow, pending⟩
        have claimed := ordered.claimed
        have cursor := ordered.cursor
        rw [stored]
        omega
      · exact same
  | readGating id =>
      rcases Option.map_eq_some_iff.mp stepped with ⟨result, read, isAfter⟩
      cases isAfter
      obtain ⟨-, -, rest, -⟩ := SingleProducerSequencer.readGating_inv bounds read
      exact ordered.called (by rw [rest]) (by rw [rest])
  | endScan =>
      rcases Option.map_eq_some_iff.mp stepped with ⟨result, ended, isAfter⟩
      cases isAfter
      obtain ⟨-, cursor, call, scan, -, returns, -⟩ :=
        SingleProducerSequencer.endScan_inv bounds ended
      exact ordered.called cursor (returns_le returns)
  | publish lo hi => exact ordered.publish inOrder stepped
  | waitFor id =>
      rcases Option.ite_none_right_eq_some.mp stepped with ⟨-, isAfter⟩
      cases isAfter
      exact ⟨ordered.published, ordered.cursor, ordered.claimed⟩
  | release id sequence =>
      rcases Option.ite_none_right_eq_some.mp stepped with ⟨-, stepped⟩
      rcases Option.ite_none_right_eq_some.mp stepped with ⟨-, isAfter⟩
      cases isAfter
      exact ⟨ordered.published, ordered.cursor, ordered.claimed⟩

/-- A step that exposes puts the cursor on a sequence that is not published. -/
theorem exposed_shown {before after : State} {action : Action} (ordered : Ordered before)
    (exposes : Exposes bufferSize before action)
    (stepped : step bufferSize gatingCount before action = some after) : ¬ Shown after := by
  cases action with
  | call call =>
      obtain ⟨isNext, idle, accepted, slow, pending⟩ := exposes
      rcases Option.map_eq_some_iff.mp stepped with ⟨result, begun, isAfter⟩
      cases isAfter
      unfold SingleProducerSequencer.begin at begun
      rw [if_neg (not_not.mpr idle), if_neg accepted, if_pos slow, isNext] at begun
      cases begun
      intro shown
      have member := shown before.sequencer.nextValue (by omega) le_rfl
      simp only [State.called] at member
      rw [ordered.published, mem_sequences] at member
      omega
  | _ => cases exposes

/-- The consumers of a producer that publishes in order are shown published
sequences only, in every state of a run, exactly when no step of the run is a
call of `next` on the slow path with claimed sequences outstanding; and whatever
it publishes, no claim laps a consumer. -/
theorem shown_iff_hidden (positive : 0 < bufferSize) {actions : List Action} {state : State}
    (ran : Machine.run (step bufferSize gatingCount) initial actions = some state) :
    (Machine.EveryStep (step bufferSize gatingCount) InOrder initial actions →
      (Machine.Throughout (step bufferSize gatingCount) Shown initial actions ↔
        Machine.EveryStep (step bufferSize gatingCount)
          (fun before action => ¬ Exposes bufferSize before action) initial actions)) ∧
    ∀ id < gatingCount, state.sequencer.nextValue - bufferSize ≤ (state.consumers id).sequence := by
  have start : initial.sequencer.Inv bufferSize gatingCount initial.gating :=
    SingleProducerSequencer.inv_initial positive.le fun _ _ => le_rfl
  constructor
  · intro inOrder
    refine Machine.throughout_iff_everyStep
      (fun state : State => Ordered state ∧
        state.sequencer.Inv bufferSize gatingCount state.gating)
      (fun both => both.1.shown) ?_ ?_ ⟨ordered_initial, start⟩ (by rw [ran]; rfl) inOrder
    · intro before after action both granted hidden stepped
      exact ⟨ordered_kept both.1 both.2 granted hidden stepped, bounds_kept both.2 stepped⟩
    · intro before after action both granted exposes stepped
      exact exposed_shown both.1 (not_not.mp exposes) stepped
  · exact (Machine.run_invariant (fun state : State => state.sequencer.Inv bufferSize gatingCount
      state.gating) bounds_kept start ran).lapped

/-- A producer that claims three sequences of a ring of two before it publishes
any. -/
def sampleActions : List Action :=
  [.call ⟨false, 1⟩, .call ⟨false, 1⟩, .call ⟨false, 1⟩]

theorem shown_iff_hidden_sample :
    ∃ state, Machine.run (step 2 1) initial sampleActions = some state ∧
      state.sequencer.cursor = 1 ∧ state.published = [] ∧
      (Machine.Throughout (step 2 1) Shown initial sampleActions ↔
        Machine.EveryStep (step 2 1) (fun before action => ¬ Exposes 2 before action) initial
          sampleActions) := by
  have shown : (Machine.run (step 2 1) initial sampleActions).map
      (fun state => (state.sequencer.cursor, state.published)) = some (1, []) := by decide
  rcases Option.map_eq_some_iff.mp shown with ⟨state, ran, shown⟩
  rw [Prod.mk.injEq] at shown
  exact ⟨state, ran, shown.1, shown.2, (shown_iff_hidden (by decide) ran).1
    ⟨trivial, fun _ _ => ⟨trivial, fun _ _ => ⟨trivial, fun _ _ => trivial⟩⟩⟩⟩

end SingleProducer

end Dift.Disruptor
