import Dift.Disruptor.Slots

/-!
Owns `EventPoller::poll`, one access to shared state at a time. What the poller
sees of the ring buffer at each access is a `View`; the handler's answers and
exceptions are given from outside.
-/

namespace Dift.Disruptor

/-- The buffer as it is at one moment: the sequence the poller is gated on, the
sequencer's cursor, its availability test, and the entries by sequence. -/
structure View (β : Type*) where
  gating : Int
  cursor : Int
  isAvailable : Int → Bool
  entry : Int → β

inductive PollState where
  | processing
  | gating
  | idle
deriving DecidableEq, Repr

/-- What the event handler does: ask for more, ask to stop, or throw. -/
inductive Handling where
  | more
  | stop
  | throw
deriving DecidableEq, Repr

/-- Where a poll is: in the scan of `getHighestPublishedSequence`, about to handle
the event at a sequence, about to store the sequence it came to, or about to
compare the cursor because there was nothing to process. -/
inductive PollStage where
  | idle
  | scanning (available next : Int)
  | handling (available next : Int)
  | storing (processed : Int) (result : Option PollState)
  | missing (next : Int)
deriving DecidableEq, Repr

/-- A poller. `returned` is what the last poll gave, nothing when it threw; the
last two lists record the handler's calls, and those that did not throw. -/
structure EventPoller (β : Type*) where
  sequence : Int
  stage : PollStage
  returned : Option PollState
  calls : List (Int × β)
  handled : List (Int × β)

namespace EventPoller

variable {β : Type*}

def initial : EventPoller β where
  sequence := -1
  stage := .idle
  returned := none
  calls := []
  handled := []

inductive Action where
  | begin
  | scan
  | handle (handling : Handling)
  | store
  | miss
deriving DecidableEq, Repr

/-- What the highest published sequence leads to. -/
def found (poller : EventPoller β) (available : Int) : EventPoller β :=
  if poller.sequence + 1 ≤ available then
    { poller with stage := .handling available (poller.sequence + 1) }
  else { poller with stage := .missing (poller.sequence + 1) }

/-- One round of `getHighestPublishedSequence`. -/
def scan (view : View β) (poller : EventPoller β) : Option (EventPoller β) :=
  match poller.stage with
  | .scanning available next =>
      if next ≤ available then
        if view.isAvailable next then some { poller with stage := .scanning available (next + 1) }
        else some (poller.found (next - 1))
      else some (poller.found available)
  | _ => none

/-- One call of the handler. -/
def handle (view : View β) (poller : EventPoller β) (handling : Handling) :
    Option (EventPoller β) :=
  match poller.stage with
  | .handling available next =>
      let event := view.entry next
      let called := { poller with calls := poller.calls ++ [(next, event)] }
      if handling = .throw then some { called with stage := .storing (next - 1) none }
      else
        let processed := { called with handled := poller.handled ++ [(next, event)] }
        if next + 1 ≤ available ∧ handling = .more then
          some { processed with stage := .handling available (next + 1) }
        else some { processed with stage := .storing next (some .processing) }
  | _ => none

def step (view : View β) (poller : EventPoller β) : Action → Option (EventPoller β)
  | .begin =>
      match poller.stage with
      | .idle => some { poller with stage := .scanning view.gating (poller.sequence + 1) }
      | _ => none
  | .scan => scan view poller
  | .handle handling => handle view poller handling
  | .store =>
      match poller.stage with
      | .storing processed result =>
          some { poller with sequence := processed, stage := .idle, returned := result }
      | _ => none
  | .miss =>
      match poller.stage with
      | .missing next =>
          some { poller with
            stage := .idle
            returned := some (if next ≤ view.cursor then .gating else .idle) }
      | _ => none

/-! ### What a poller keeps -/

/-- How far the handler has come. -/
def done (poller : EventPoller β) : Int :=
  match poller.stage with
  | .handling _ next => next - 1
  | .storing processed _ => processed
  | _ => poller.sequence

/-- What a poll knows, where it is. -/
def Knows (gate : Int) (published : Int → Prop) (sequence : Int) : PollStage → Prop
  | .idle => True
  | .scanning available next => sequence + 1 ≤ next ∧ available ≤ gate ∧
      ∀ earlier, 0 ≤ earlier → earlier < next → published earlier
  | .handling available next => sequence + 1 ≤ next ∧ next ≤ available ∧ available ≤ gate ∧
      ∀ earlier, 0 ≤ earlier → earlier ≤ available → published earlier
  | .storing processed _ => sequence ≤ processed ∧ processed ≤ gate ∧
      ∀ earlier, 0 ≤ earlier → earlier ≤ processed → published earlier
  | .missing _ => True

/-- What holds of a poller: it stays behind its gate and on published sequences,
its handler was called with what they hold, and has handled them all, each once
and in order. -/
structure Inv (gate : Int) (published : Int → Prop) (content : Int → β)
    (poller : EventPoller β) : Prop where
  start : -1 ≤ poller.sequence
  gated : poller.sequence ≤ gate
  passed : ∀ earlier, 0 ≤ earlier → earlier ≤ poller.sequence → published earlier
  knows : Knows gate published poller.sequence poller.stage
  handled : poller.handled = (sequences 0 poller.done).map fun sequence =>
    (sequence, content sequence)
  calls : ∀ call ∈ poller.calls, published call.1 ∧ call.2 = content call.1

/-- The buffer shows a poller nothing but the content of published sequences. -/
structure Shows (view : View β) (gate : Int) (published : Int → Prop) (content : Int → β)
    (sequence : Int) : Prop where
  gating : view.gating = gate
  available : ∀ later, sequence < later → later ≤ gate → view.isAvailable later = true →
    published later
  entry : ∀ later, sequence < later → later ≤ gate → published later →
    view.entry later = content later

theorem inv_initial {gate : Int} (low : -1 ≤ gate) (published : Int → Prop) (content : Int → β) :
    Inv gate published content initial where
  start := le_rfl
  gated := low
  passed := by
    intro earlier nonneg passed
    simp only [initial] at passed
    omega
  knows := trivial
  handled := rfl
  calls := by
    intro call member
    cases member

section Keeps

variable {gate : Int} {published : Int → Prop} {content : Int → β}

theorem Inv.done_le_gate {poller : EventPoller β} (inv : Inv gate published content poller) :
    poller.done ≤ gate := by
  have knows := inv.knows
  unfold done
  cases stage : poller.stage with
  | handling available next =>
      rw [stage] at knows
      obtain ⟨-, inside, bounded, -⟩ := knows
      simp only
      omega
  | storing processed result =>
      rw [stage] at knows
      exact knows.2.1
  | _ => exact inv.gated

theorem Inv.done_published {poller : EventPoller β} (inv : Inv gate published content poller) :
    ∀ earlier, 0 ≤ earlier → earlier ≤ poller.done → published earlier := by
  have knows := inv.knows
  unfold done
  cases stage : poller.stage with
  | handling available next =>
      rw [stage] at knows
      obtain ⟨-, inside, -, all⟩ := knows
      intro earlier nonneg before
      simp only at before
      exact all earlier nonneg (by omega)
  | storing processed result =>
      rw [stage] at knows
      exact knows.2.2
  | _ => exact inv.passed

/-- Published sequences stay so with what they hold, and the gate only rises. -/
theorem Inv.mono {poller : EventPoller β} (inv : Inv gate published content poller) {later : Int}
    {since : Int → Prop} {holds : Int → β} (rises : gate ≤ later)
    (stays : ∀ sequence, published sequence → since sequence)
    (same : ∀ sequence, published sequence → holds sequence = content sequence) :
    Inv later since holds poller where
  start := inv.start
  gated := inv.gated.trans rises
  passed := fun earlier nonneg before => stays earlier (inv.passed earlier nonneg before)
  knows := by
    have knows := inv.knows
    cases stage : poller.stage with
    | idle => trivial
    | missing next => trivial
    | scanning available next =>
        rw [stage] at knows
        obtain ⟨forward, bounded, all⟩ := knows
        exact ⟨forward, bounded.trans rises, fun earlier nonneg before =>
          stays earlier (all earlier nonneg before)⟩
    | handling available next =>
        rw [stage] at knows
        obtain ⟨forward, inside, bounded, all⟩ := knows
        exact ⟨forward, inside, bounded.trans rises, fun earlier nonneg before =>
          stays earlier (all earlier nonneg before)⟩
    | storing processed result =>
        rw [stage] at knows
        obtain ⟨forward, bounded, all⟩ := knows
        exact ⟨forward, bounded.trans rises, fun earlier nonneg before =>
          stays earlier (all earlier nonneg before)⟩
  handled := by
    rw [inv.handled]
    apply List.map_congr_left
    intro sequence member
    have bounds := mem_sequences.mp member
    rw [same sequence (inv.done_published sequence bounds.1 bounds.2)]
  calls := by
    intro call member
    have told := inv.calls call member
    exact ⟨stays _ told.1, told.2.trans (same _ told.1).symm⟩

/-- The result of the scan. -/
theorem Inv.found {poller : EventPoller β} (inv : Inv gate published content poller)
    (same : poller.done = poller.sequence) {available : Int} (bounded : available ≤ gate)
    (all : ∀ earlier, 0 ≤ earlier → earlier ≤ available → published earlier) :
    Inv gate published content (poller.found available) := by
  have handled := inv.handled
  rw [same] at handled
  unfold EventPoller.found
  split
  case isTrue isNew =>
    refine ⟨inv.start, inv.gated, inv.passed, ⟨le_rfl, isNew, bounded, all⟩, ?_, inv.calls⟩
    simp only [done, add_sub_cancel_right]
    exact handled
  case isFalse nothingNew =>
    exact ⟨inv.start, inv.gated, inv.passed, trivial, handled, inv.calls⟩

theorem Inv.scan {view : View β} {poller after : EventPoller β}
    (inv : Inv gate published content poller)
    (shows : Shows view gate published content poller.sequence)
    (stepped : scan view poller = some after) : Inv gate published content after := by
  unfold EventPoller.scan at stepped
  split at stepped
  case h_2 => cases stepped
  case h_1 available next stage =>
    have knows := inv.knows
    rw [stage] at knows
    obtain ⟨forward, bounded, all⟩ := knows
    have same : poller.done = poller.sequence := by
      rw [done, stage]
    split at stepped
    case isTrue inside =>
      split at stepped
      case isTrue isAvailable =>
        cases stepped
        have isPublished := shows.available next (by omega) (by omega) isAvailable
        have handled := inv.handled
        rw [same] at handled
        have further : poller.sequence + 1 ≤ next + 1 := by omega
        refine ⟨inv.start, inv.gated, inv.passed, ⟨further, bounded, ?_⟩, handled, inv.calls⟩
        intro earlier nonneg before
        by_cases last : earlier = next
        · rwa [last]
        · exact all earlier nonneg (by omega)
      case isFalse =>
        cases stepped
        exact inv.found same (by omega) fun earlier nonneg before =>
          all earlier nonneg (by omega)
    case isFalse beyond =>
      cases stepped
      exact inv.found same bounded fun earlier nonneg before => all earlier nonneg (by omega)

theorem Inv.handle {view : View β} {poller after : EventPoller β}
    (inv : Inv gate published content poller)
    (shows : Shows view gate published content poller.sequence) {handling : Handling}
    (stepped : handle view poller handling = some after) : Inv gate published content after := by
  unfold EventPoller.handle at stepped
  split at stepped
  case h_2 => cases stepped
  case h_1 available next stage =>
    have knows := inv.knows
    rw [stage] at knows
    obtain ⟨forward, inside, bounded, all⟩ := knows
    have start := inv.start
    have isPublished := all next (by omega) inside
    have event := shows.entry next (by omega) (by omega) isPublished
    have handled := inv.handled
    simp only [done, stage] at handled
    have calls : ∀ call ∈ poller.calls ++ [(next, view.entry next)],
        published call.1 ∧ call.2 = content call.1 := by
      intro call member
      rcases List.mem_append.mp member with old | new
      · exact inv.calls call old
      · rw [List.mem_singleton.mp new]
        exact ⟨isPublished, event⟩
    have processed : poller.handled ++ [(next, view.entry next)] =
        (sequences 0 next).map fun sequence => (sequence, content sequence) := by
      have grown := sequences_succ (show (0 : Int) ≤ next - 1 + 1 by omega)
      rw [sub_add_cancel] at grown
      rw [handled, event, ← grown, List.map_append]
      rfl
    have back : poller.sequence ≤ next - 1 := by omega
    have further : poller.sequence + 1 ≤ next + 1 := by omega
    have past : poller.sequence ≤ next := by omega
    simp only at stepped
    split at stepped
    case isTrue thrown =>
      cases stepped
      exact ⟨start, inv.gated, inv.passed, ⟨back, by omega, fun earlier nonneg before =>
        all earlier nonneg (by omega)⟩, handled, calls⟩
    case isFalse =>
      split at stepped
      case isTrue more =>
        cases stepped
        refine ⟨start, inv.gated, inv.passed, ⟨further, more.1, bounded, all⟩, ?_, calls⟩
        simp only [done, add_sub_cancel_right]
        exact processed
      case isFalse =>
        cases stepped
        exact ⟨start, inv.gated, inv.passed, ⟨past, by omega, fun earlier nonneg before =>
          all earlier nonneg (by omega)⟩, processed, calls⟩

/-- A poller's step keeps what holds of it, and never takes its sequence back. -/
theorem Inv.step {view : View β} {poller after : EventPoller β}
    (inv : Inv gate published content poller)
    (shows : Shows view gate published content poller.sequence) {action : Action}
    (stepped : step view poller action = some after) :
    Inv gate published content after ∧ poller.sequence ≤ after.sequence := by
  cases action with
  | begin =>
      simp only [EventPoller.step] at stepped
      split at stepped
      case h_2 => cases stepped
      case h_1 stage =>
        cases stepped
        have handled := inv.handled
        simp only [done, stage] at handled
        refine ⟨⟨inv.start, inv.gated, inv.passed, ⟨le_rfl, shows.gating.le, ?_⟩, handled,
          inv.calls⟩, le_rfl⟩
        intro earlier nonneg before
        exact inv.passed earlier nonneg (by omega)
  | scan =>
      refine ⟨inv.scan shows stepped, ?_⟩
      simp only [EventPoller.step, EventPoller.scan] at stepped
      split at stepped
      case h_2 => cases stepped
      case h_1 =>
        split at stepped
        · split at stepped <;> cases stepped
          · exact le_rfl
          · unfold EventPoller.found
            split <;> exact le_rfl
        · cases stepped
          unfold EventPoller.found
          split <;> exact le_rfl
  | handle handling =>
      refine ⟨inv.handle shows stepped, ?_⟩
      simp only [EventPoller.step, EventPoller.handle] at stepped
      split at stepped
      case h_2 => cases stepped
      case h_1 =>
        split at stepped
        · cases stepped
          exact le_rfl
        · split at stepped <;> cases stepped <;> exact le_rfl
  | store =>
      simp only [EventPoller.step] at stepped
      split at stepped
      case h_2 => cases stepped
      case h_1 processed result stage =>
        cases stepped
        have knows := inv.knows
        rw [stage] at knows
        obtain ⟨forward, bounded, all⟩ := knows
        have handled := inv.handled
        simp only [done, stage] at handled
        exact ⟨⟨inv.start.trans forward, bounded, all, trivial, handled, inv.calls⟩, forward⟩
  | miss =>
      simp only [EventPoller.step] at stepped
      split at stepped
      case h_2 => cases stepped
      case h_1 next stage =>
        cases stepped
        have handled := inv.handled
        simp only [done, stage] at handled
        exact ⟨⟨inv.start, inv.gated, inv.passed, trivial, handled, inv.calls⟩, le_rfl⟩

end Keeps

end EventPoller

end Dift.Disruptor
