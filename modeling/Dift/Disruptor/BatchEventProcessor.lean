import Dift.Disruptor.Publishing
import Dift.Disruptor.Wiring

/-!
Owns the loop of `BatchEventProcessor::run` and `halt`, an access to shared state at a
time, and the runs of a started disruptor: a producer that publishes to the ring buffer,
and the processors that were wired, each waiting at its barrier for those that it tracks.
Here no two threads are in the loop of one processor: it is run again after it has left
its loop, halted or by an exception. `Rerun` has the threads, and relates its runs to
these. Exceptions of `waitFor` other than its timeouts and alerts are left out.
-/

namespace Dift.Disruptor

open Dift.Foundation

/-- A call of the event handler. -/
structure OnEvent (β : Type*) where
  sequence : Int
  event : β
  endOfBatch : Bool
deriving DecidableEq, Repr

/-- How the event handler leaves a call: it returns, throws an exception of the three
kinds that `run` tells apart, or throws one that the exception handler throws on. -/
inductive Leaving where
  | returns
  | throws
  | throwsTimeout
  | throwsAlert
  | escapes
deriving DecidableEq, Repr

/-- Not in `run`, before its loop, at the barrier, about to pass the next event of a batch,
about to store the sequence it came to, or after its loop. -/
inductive BatchStage where
  | idle
  | starting
  | waiting (nextSequence : Int)
  | handling (nextSequence availableSequence : Int)
  | storing (sequence : Int)
  | leaving
deriving DecidableEq, Repr

/-- A processor. The last two lists record the handler's calls, and the sequences that are
done with: the handler returned, or the exception handler did. -/
structure BatchEventProcessor (β : Type*) where
  running : Bool
  sequence : Int
  stage : BatchStage
  calls : List (OnEvent β)
  handled : List Int
deriving DecidableEq, Repr

namespace BatchEventProcessor

variable {β : Type*}

def initial : BatchEventProcessor β where
  running := false
  sequence := -1
  stage := .idle
  calls := []
  handled := []

/-- The barrier's `waitFor` returns what the sequences it tracks were at some moment of the
wait, which may be nothing new, throws on a timeout, or throws because it is alerted. What
the handlers of starts, timeouts and shutdowns throw leaves `run` when the exception
handler throws it on. -/
inductive Action where
  | run
  | notifyStart
  | waited (availableSequence : Int)
  | woken
  | onEvent (leaving : Leaving)
  | store
  | timeout
  | alerted
  | escapes
  | notifyShutdown
  | halt
deriving DecidableEq, Repr

/-- The steps that end the loop: an alert, when the processor was halted, and an exception
that escapes. -/
def Action.leaves (running : Bool) : Action → Bool
  | .onEvent .throwsAlert | .alerted => !running
  | .onEvent .escapes | .escapes => true
  | _ => false

/-- An alert is ignored unless the processor was halted. -/
def onAlert (processor : BatchEventProcessor β) (nextSequence : Int) : BatchEventProcessor β :=
  if processor.running then { processor with stage := .waiting nextSequence }
  else { processor with stage := .leaving }

/-- The handler is called. -/
def called (entry : Int → β) (processor : BatchEventProcessor β)
    (nextSequence availableSequence : Int) : BatchEventProcessor β :=
  { processor with
    calls := processor.calls ++
      [⟨nextSequence, entry nextSequence, nextSequence = availableSequence⟩] }

/-- Passing one event to the handler. -/
def onEvent (entry : Int → β) (processor : BatchEventProcessor β)
    (nextSequence availableSequence : Int) (leaving : Leaving) : BatchEventProcessor β :=
  let called := processor.called entry nextSequence availableSequence
  match leaving with
  | .returns => { called with
      handled := processor.handled ++ [nextSequence]
      stage :=
        if nextSequence + 1 ≤ availableSequence then
          .handling (nextSequence + 1) availableSequence
        else .storing availableSequence }
  | .throws => { called with
      handled := processor.handled ++ [nextSequence], stage := .storing nextSequence }
  | .throwsTimeout => { called with stage := .waiting nextSequence }
  | .throwsAlert => called.onAlert nextSequence
  -- Nothing is stored, and the processor still counts as running.
  | .escapes => { called with stage := .idle }

/-- What the barrier lets pass is given from outside, as are the entries. -/
def step (isOpen : Int → Bool) (entry : Int → β) (processor : BatchEventProcessor β) :
    Action → Option (BatchEventProcessor β)
  | .run =>
      -- `InvalidOperationException`
      if processor.running then some processor
      else if processor.stage = .idle then
        some { processor with running := true, stage := .starting }
      else none
  | .notifyStart =>
      match processor.stage with
      | .starting => some { processor with stage := .waiting (processor.sequence + 1) }
      | _ => none
  | .waited availableSequence =>
      match processor.stage with
      | .waiting nextSequence =>
          if nextSequence ≤ availableSequence ∧ isOpen availableSequence then
            some { processor with stage := .handling nextSequence availableSequence }
          else none
      | _ => none
  | .woken =>
      match processor.stage with
      | .waiting nextSequence => some { processor with stage := .storing (nextSequence - 1) }
      | _ => none
  | .onEvent leaving =>
      match processor.stage with
      | .handling nextSequence availableSequence =>
          some (processor.onEvent entry nextSequence availableSequence leaving)
      | _ => none
  | .store =>
      match processor.stage with
      | .storing sequence =>
          some { processor with sequence := sequence, stage := .waiting (sequence + 1) }
      | _ => none
  | .timeout =>
      match processor.stage with
      | .waiting _ => some processor
      | _ => none
  | .alerted =>
      match processor.stage with
      | .waiting nextSequence => some (processor.onAlert nextSequence)
      | _ => none
  | .escapes =>
      match processor.stage with
      | .starting | .waiting _ | .leaving => some { processor with stage := .idle }
      | _ => none
  | .notifyShutdown =>
      match processor.stage with
      | .leaving => some { processor with running := false, stage := .idle }
      | _ => none
  | .halt => some { processor with running := false }

/-! ### What a processor keeps -/

/-- The sequence that the processor goes on with; out of its loop, when it is run again. -/
def next (processor : BatchEventProcessor β) : Int :=
  match processor.stage with
  | .idle | .starting | .leaving => processor.sequence + 1
  | .waiting nextSequence => nextSequence
  | .handling nextSequence _ => nextSequence
  | .storing sequence => sequence + 1

/-- What a stage says, where the barrier lets the open sequences pass. A processor at its
barrier has stored the sequence it came to, but for one whose handler left a batch by an
exception; that batch was open. -/
def Agrees (isOpen : Int → Prop) (sequence : Int) : BatchStage → Prop
  | .waiting nextSequence => sequence = nextSequence - 1 ∨ isOpen nextSequence
  | .handling nextSequence availableSequence =>
      nextSequence ≤ availableSequence ∧ isOpen availableSequence
  | .idle | .starting | .storing _ | .leaving => True

/-- A processor has passed published events only, and all of them up to where it is. -/
structure Sound (isOpen : Int → Prop) (content : Int → β) (processor : BatchEventProcessor β) :
    Prop where
  start : -1 ≤ processor.sequence
  stored : isOpen processor.sequence
  behind : processor.sequence < processor.next
  reached : isOpen (processor.next - 1)
  stage : Agrees isOpen processor.sequence processor.stage
  calls : ∀ call ∈ processor.calls,
    0 ≤ call.sequence ∧ isOpen call.sequence ∧ call.event = content call.sequence
  handled : ∀ sequence ∈ processor.handled, isOpen sequence
  covers : ∀ sequence, 0 ≤ sequence → sequence < processor.next → sequence ∈ processor.handled

variable {isOpen : Int → Prop} {content : Int → β} {processor : BatchEventProcessor β}

theorem sound_initial (nothing : isOpen (-1)) :
    (initial : BatchEventProcessor β).Sound isOpen content where
  start := le_rfl
  stored := nothing
  behind := show (-1 : Int) < -1 + 1 by decide
  reached := nothing
  stage := trivial
  calls := fun _ member => absurd member List.not_mem_nil
  handled := fun _ member => absurd member List.not_mem_nil
  covers := by
    intro sequence nonneg below
    exact absurd (nonneg.trans_lt below) (lt_irrefl _)

theorem Sound.mono {later : Int → Prop} {newer : Int → β}
    (sound : processor.Sound isOpen content)
    (opens : ∀ sequence, isOpen sequence → later sequence ∧ newer sequence = content sequence) :
    processor.Sound later newer where
  start := sound.start
  stored := (opens _ sound.stored).1
  behind := sound.behind
  reached := (opens _ sound.reached).1
  stage := by
    have stage := sound.stage
    cases is : processor.stage with
    | idle | starting | storing _ | leaving => trivial
    | waiting nextSequence =>
        rw [is] at stage
        exact stage.imp_right fun isOpen => (opens _ isOpen).1
    | handling nextSequence availableSequence =>
        rw [is] at stage
        exact ⟨stage.1, (opens _ stage.2).1⟩
  calls := by
    intro call member
    obtain ⟨nonneg, isOpen, event⟩ := sound.calls call member
    exact ⟨nonneg, (opens _ isOpen).1, event.trans (opens _ isOpen).2.symm⟩
  handled := fun sequence member => (opens _ (sound.handled sequence member)).1
  covers := sound.covers

/-- What a step of a processor does: its sequence does not go back, and what was called and
handled stays. -/
structure Moves (before after : BatchEventProcessor β) : Prop where
  forward : before.sequence ≤ after.sequence
  calls : before.calls <+: after.calls
  handled : before.handled <+: after.handled

/-- A step that only moves the processor between its loop and the barrier. -/
theorem Sound.staged (sound : processor.Sound isOpen content) {stage : BatchStage}
    {running : Bool}
    (behind : processor.sequence <
      BatchEventProcessor.next { processor with running := running, stage := stage })
    (back : BatchEventProcessor.next { processor with running := running, stage := stage } ≤
      processor.next)
    (closed : ∀ {first second}, first ≤ second → isOpen second → isOpen first)
    (agrees : Agrees isOpen processor.sequence stage) :
    BatchEventProcessor.Sound isOpen content { processor with
      running := running, stage := stage } where
  start := sound.start
  stored := sound.stored
  behind := behind
  reached := closed (by omega) sound.reached
  stage := agrees
  calls := sound.calls
  handled := sound.handled
  covers := fun sequence nonneg below => sound.covers sequence nonneg (below.trans_le back)

/-- A call of the handler, before it is known how the handler leaves it. -/
theorem Sound.called (sound : processor.Sound isOpen content) {entry : Int → β}
    {nextSequence : Int} (availableSequence : Int) (nonneg : 0 ≤ nextSequence)
    (opened : isOpen nextSequence) (slot : entry nextSequence = content nextSequence) :
    (processor.called entry nextSequence availableSequence).Sound isOpen content where
  start := sound.start
  stored := sound.stored
  behind := sound.behind
  reached := sound.reached
  stage := sound.stage
  calls := by
    intro other member
    rcases List.mem_append.mp member with earlier | isNew
    · exact sound.calls other earlier
    · rw [List.mem_singleton.mp isNew]
      exact ⟨nonneg, opened, slot⟩
  handled := sound.handled
  covers := sound.covers

/-- An event is done with. -/
theorem Sound.done (sound : processor.Sound isOpen content) {nextSequence : Int}
    (isNext : processor.next = nextSequence) (opened : isOpen nextSequence) {stage : BatchStage}
    (further : BatchEventProcessor.next { processor with stage := stage } = nextSequence + 1)
    (agrees : Agrees isOpen processor.sequence stage) :
    BatchEventProcessor.Sound isOpen content { processor with
      handled := processor.handled ++ [nextSequence], stage := stage } where
  start := sound.start
  stored := sound.stored
  behind := by
    have behind := sound.behind
    show processor.sequence < BatchEventProcessor.next { processor with stage := stage }
    omega
  reached := by
    show isOpen (BatchEventProcessor.next { processor with stage := stage } - 1)
    rw [further, add_sub_cancel_right]
    exact opened
  stage := agrees
  calls := sound.calls
  handled := by
    intro sequence member
    rcases List.mem_append.mp member with earlier | isNew
    · exact sound.handled sequence earlier
    · rw [List.mem_singleton.mp isNew]
      exact opened
  covers := by
    intro sequence nonneg below
    replace below : sequence < BatchEventProcessor.next { processor with stage := stage } := below
    by_cases isNew : sequence = nextSequence
    · exact List.mem_append_right _ (List.mem_singleton.mpr isNew)
    · exact List.mem_append_left _ (sound.covers sequence nonneg (by omega))

section Steps

variable (closed : ∀ {first second}, first ≤ second → isOpen second → isOpen first)

include closed

/-- Out of its loop, a processor goes back to what it has stored. -/
theorem Sound.leaves (sound : processor.Sound isOpen content) {stage : BatchStage}
    {running : Bool}
    (isNext : BatchEventProcessor.next { processor with running := running, stage := stage } =
      processor.sequence + 1) (agrees : Agrees isOpen processor.sequence stage) :
    BatchEventProcessor.Sound isOpen content { processor with
        running := running, stage := stage } ∧
      processor.Moves { processor with running := running, stage := stage } := by
  have behind := sound.behind
  exact ⟨sound.staged (by omega) (by omega) closed agrees, le_rfl, List.prefix_rfl,
    List.prefix_rfl⟩

theorem Sound.onAlert (sound : processor.Sound isOpen content) {nextSequence : Int}
    (isNext : processor.next = nextSequence)
    (agrees : Agrees isOpen processor.sequence (.waiting nextSequence)) :
    (processor.onAlert nextSequence).Sound isOpen content ∧
      processor.Moves (processor.onAlert nextSequence) := by
  have behind := sound.behind
  rw [isNext] at behind
  rw [BatchEventProcessor.onAlert]
  split
  case isTrue =>
    have back : BatchEventProcessor.next { processor with stage := .waiting nextSequence } ≤
        processor.next := isNext.ge
    exact ⟨sound.staged behind back closed agrees, le_rfl, List.prefix_rfl, List.prefix_rfl⟩
  case isFalse => exact sound.leaves closed rfl trivial

theorem Sound.onEvent (sound : processor.Sound isOpen content) {entry : Int → β}
    (slots : ∀ sequence, processor.sequence < sequence → isOpen sequence →
      entry sequence = content sequence) {nextSequence availableSequence : Int}
    (handling : processor.stage = .handling nextSequence availableSequence)
    (leaving : Leaving) :
    (processor.onEvent entry nextSequence availableSequence leaving).Sound isOpen content ∧
      processor.Moves (processor.onEvent entry nextSequence availableSequence leaving) := by
  have isNext : processor.next = nextSequence := by rw [next, handling]
  have stage := sound.stage
  rw [handling] at stage
  obtain ⟨inBatch, batch⟩ := stage
  have opened := closed inBatch batch
  have start := sound.start
  have behind := sound.behind
  rw [isNext] at behind
  have called := sound.called availableSequence (by omega) opened
    (slots nextSequence behind opened)
  cases leaving with
  | returns =>
      refine ⟨called.done isNext opened ?_ ?_, le_rfl, List.prefix_append _ _,
        List.prefix_append _ _⟩
      · split
        case isTrue => rfl
        case isFalse last =>
          show availableSequence + 1 = nextSequence + 1
          omega
      · split
        case isTrue more => exact ⟨more, batch⟩
        case isFalse => trivial
  | throws =>
      exact ⟨called.done isNext opened rfl trivial, le_rfl, List.prefix_append _ _,
        List.prefix_append _ _⟩
  | throwsTimeout =>
      exact ⟨called.staged behind isNext.ge closed (.inr opened), le_rfl,
        List.prefix_append _ _, List.prefix_rfl⟩
  | throwsAlert =>
      obtain ⟨kept, moves⟩ := called.onAlert closed isNext (.inr opened)
      exact ⟨kept, moves.forward, (List.prefix_append _ _).trans moves.calls, moves.handled⟩
  | escapes =>
      obtain ⟨kept, moves⟩ := called.leaves closed (show BatchEventProcessor.next { processor.called entry nextSequence availableSequence with
        stage := .idle } = _ from rfl) trivial
      exact ⟨kept, moves.forward, (List.prefix_append _ _).trans moves.calls, moves.handled⟩

theorem step_sound (sound : processor.Sound isOpen content) {entry : Int → β}
    (slots : ∀ sequence, processor.sequence < sequence → isOpen sequence →
      entry sequence = content sequence) {opens : Int → Bool}
    (open_of_opens : ∀ sequence, opens sequence = true → isOpen sequence)
    {action : Action} {after : BatchEventProcessor β}
    (stepped : step opens entry processor action = some after) :
    after.Sound isOpen content ∧ processor.Moves after := by
  have behind := sound.behind
  cases action with
  | run =>
      simp only [step] at stepped
      split at stepped
      case isTrue =>
        cases stepped
        exact ⟨sound, le_rfl, List.prefix_rfl, List.prefix_rfl⟩
      case isFalse =>
        rcases Option.ite_none_right_eq_some.mp stepped with ⟨-, isAfter⟩
        cases isAfter
        exact sound.leaves closed rfl trivial
  | notifyStart =>
      simp only [step] at stepped
      split at stepped
      case h_2 => cases stepped
      case h_1 =>
        cases stepped
        exact sound.leaves closed rfl (.inl (add_sub_cancel_right _ _).symm)
  | waited availableSequence =>
      simp only [step] at stepped
      split at stepped
      case h_2 => cases stepped
      case h_1 nextSequence waiting =>
        rcases Option.ite_none_right_eq_some.mp stepped with ⟨opened, isAfter⟩
        cases isAfter
        have isNext : processor.next = nextSequence := by rw [next, waiting]
        rw [isNext] at behind
        have batch : Agrees isOpen processor.sequence
            (.handling nextSequence availableSequence) :=
          ⟨opened.1, open_of_opens _ opened.2⟩
        exact ⟨sound.staged behind isNext.ge closed batch, le_rfl, List.prefix_rfl,
          List.prefix_rfl⟩
  | woken =>
      simp only [step] at stepped
      split at stepped
      case h_2 => cases stepped
      case h_1 nextSequence waiting =>
        cases stepped
        have same : BatchEventProcessor.next { processor with
            stage := .storing (nextSequence - 1) } = processor.next := by
          rw [next, next, waiting]
          exact sub_add_cancel _ _
        exact ⟨sound.staged (same ▸ behind) same.le closed trivial, le_rfl, List.prefix_rfl,
          List.prefix_rfl⟩
  | onEvent leaving =>
      simp only [step] at stepped
      split at stepped
      case h_2 => cases stepped
      case h_1 nextSequence availableSequence handling =>
        cases stepped
        exact sound.onEvent closed slots handling leaving
  | store =>
      simp only [step] at stepped
      split at stepped
      case h_2 => cases stepped
      case h_1 sequence storing =>
        cases stepped
        have isNext : processor.next = sequence + 1 := by rw [next, storing]
        have reached := sound.reached
        rw [isNext, add_sub_cancel_right] at reached
        have start := sound.start
        refine ⟨⟨?_, reached, ?_, ?_, .inl (add_sub_cancel_right _ _).symm, sound.calls,
          sound.handled, ?_⟩, ?_, List.prefix_rfl, List.prefix_rfl⟩
        · show -1 ≤ sequence
          omega
        · show sequence < sequence + 1
          omega
        · show isOpen (sequence + 1 - 1)
          rw [add_sub_cancel_right]
          exact reached
        · intro other nonneg below
          replace below : other < sequence + 1 := below
          exact sound.covers other nonneg (by omega)
        · show processor.sequence ≤ sequence
          omega
  | timeout =>
      simp only [step] at stepped
      split at stepped
      case h_2 => cases stepped
      case h_1 =>
        cases stepped
        exact ⟨sound, le_rfl, List.prefix_rfl, List.prefix_rfl⟩
  | alerted =>
      simp only [step] at stepped
      split at stepped
      case h_2 => cases stepped
      case h_1 nextSequence waiting =>
        cases stepped
        have stage := sound.stage
        rw [waiting] at stage
        exact sound.onAlert closed (by rw [next, waiting]) stage
  | escapes =>
      simp only [step] at stepped
      split at stepped
      case h_4 => cases stepped
      all_goals
        cases stepped
        exact sound.leaves closed rfl trivial
  | notifyShutdown =>
      simp only [step] at stepped
      split at stepped
      case h_2 => cases stepped
      case h_1 =>
        cases stepped
        exact sound.leaves closed rfl trivial
  | halt =>
      cases stepped
      exact ⟨⟨sound.start, sound.stored, sound.behind, sound.reached, sound.stage, sound.calls,
        sound.handled, sound.covers⟩, le_rfl, List.prefix_rfl, List.prefix_rfl⟩

end Steps

end BatchEventProcessor

/-! ### A started disruptor -/

/-- The processors, which sequences their barriers track, and which sequences the ring
buffer is gated on. A processor that it is not gated on is tracked by another one. -/
structure StartedDisruptor where
  indexShift : Nat
  count : Nat
  barrier : Nat → List Nat
  gating : List Nat
  small : indexShift ≤ 30
  positive : 0 < count
  earlier : ∀ later < count, ∀ id ∈ barrier later, id < later
  known : ∀ id ∈ gating, id < count
  ends : ∀ id < count, id ∈ gating ∨ ∃ later < count, id ∈ barrier later

/-- What the calls that wired a disruptor have made of it. -/
def Wiring.State.disruptor {η : Type*} (state : Wiring.State η) (wired : Wiring.Wired state)
    (started : state.started = true) (positive : 0 < state.consumers.length) (indexShift : Nat)
    (small : indexShift ≤ 30) : StartedDisruptor where
  indexShift := indexShift
  count := state.consumers.length
  barrier := fun id => (state.consumers[id]?.map EventProcessorInfo.barrier).getD []
  gating := state.gating
  small := small
  positive := positive
  earlier := by
    intro later below id member
    rw [List.getElem?_eq_getElem below] at member
    exact wired.earlier ⟨_, List.getElem?_eq_getElem below, member⟩
  known := fun id member => ((wired.gating id).mp member).2.1
  ends := by
    intro id below
    by_cases tracked : ∃ later, state.Tracks later id
    · obtain ⟨later, tracks⟩ := tracked
      have below := tracks.lt_length
      obtain ⟨info, isInfo, member⟩ := tracks
      refine .inr ⟨later, below, ?_⟩
      rw [isInfo]
      exact member
    · exact .inl ((wired.gating id).mpr
        ⟨started, below, fun later tracks => tracked ⟨later, tracks⟩⟩)

namespace StartedDisruptor

/-- Where `shutdown` is: between two looks for a backlog, or with the cursor that it read,
the ends of chains of which it has still to see whether they run, those that do, and those
that have come to the cursor; or past its loop. -/
inductive Shutdown where
  | idle
  | checking (cursor : Int) (unlisted listed passed : List Nat)
  | drained (cursor : Int) (passed : List Nat)
deriving DecidableEq, Repr

structure State (β : Type*) where
  ring : Publishing.State β
  processors : Nat → BatchEventProcessor β
  shutdown : Shutdown

variable {β : Type*} (disruptor : StartedDisruptor)

def buffer : Publishing.Buffer where
  indexShift := disruptor.indexShift
  gatingCount := disruptor.gating.length
  small := disruptor.small

def initial (entries : Nat → β) : State β where
  ring := Publishing.initial disruptor.buffer entries
  processors := fun _ => .initial
  shutdown := .idle

def State.gating (state : State β) (index : Nat) : Int :=
  (state.processors (disruptor.gating.getD index 0)).sequence

/-- The barrier of a processor: the cursor, unless it tracks other processors. -/
def State.opens (state : State β) (id : Nat) (sequence : Int) : Bool :=
  if disruptor.barrier id = [] then sequence ≤ state.ring.cursor
  else (disruptor.barrier id).all fun other => sequence ≤ (state.processors other).sequence

inductive Action (β : Type*) where
  | produce (action : Publishing.Action β)
  | process (id : Nat) (action : BatchEventProcessor.Action)
  | shutdown
  | list
  | compare
  | leave

/-- `hasBacklog` reads the cursor, lists the ends of chains that run, and compares their
sequences with the cursor; `shutdown` looks again as long as one is behind. -/
def step (state : State β) : Action β → Option (State β)
  | .produce action =>
      (Publishing.step disruptor.buffer (state.gating disruptor) state.ring action).map
        fun ring => { state with ring := ring }
  | .process id action =>
      if id < disruptor.count then
        (BatchEventProcessor.step (state.opens disruptor id) (state.ring.entry disruptor.buffer)
          (state.processors id) action).map fun processor =>
            { state with processors := Function.update state.processors id processor }
      else none
  | .shutdown =>
      if state.shutdown = .idle then
        some { state with shutdown := .checking state.ring.cursor disruptor.gating [] [] }
      else none
  | .list =>
      match state.shutdown with
      | .checking cursor (id :: unlisted) listed passed =>
          some { state with
            shutdown := .checking cursor unlisted
              (if (state.processors id).running then listed ++ [id] else listed) passed }
      | _ => none
  | .compare =>
      match state.shutdown with
      | .checking cursor [] (id :: listed) passed =>
          some { state with
            shutdown :=
              if cursor > (state.processors id).sequence then .idle
              else .checking cursor [] listed (passed ++ [id]) }
      | _ => none
  | .leave =>
      match state.shutdown with
      | .checking cursor [] [] passed => some { state with shutdown := .drained cursor passed }
      | _ => none

/-! ### What the runs keep -/

/-- What the barrier of a processor may let pass. -/
def State.Open (state : State β) (id : Nat) (sequence : Int) : Prop :=
  sequence ≤ state.ring.cursor ∧
    ∀ other ∈ disruptor.barrier id, sequence ≤ (state.processors other).sequence

def Shutdown.Agrees (count : Nat) (processors : Nat → BatchEventProcessor β) : Shutdown → Prop
  | .idle => True
  | .checking cursor unlisted listed passed =>
      (∀ id, id ∈ unlisted ∨ id ∈ listed → id < count) ∧
        ∀ id ∈ passed, id < count ∧ cursor ≤ (processors id).sequence
  | .drained cursor passed => ∀ id ∈ passed, id < count ∧ cursor ≤ (processors id).sequence

structure Inv (disruptor : StartedDisruptor) (state : State β) : Prop where
  ring : Publishing.Inv disruptor.buffer (state.gating disruptor) state.ring
  processors : ∀ id < disruptor.count,
    (state.processors id).Sound (state.Open disruptor id) state.ring.content
  shutdown : state.shutdown.Agrees disruptor.count state.processors

/-- What every step keeps, besides the invariant. -/
structure Follows (disruptor : StartedDisruptor) (before after : State β) : Prop where
  inv : Inv disruptor after
  published : before.ring.cursor ≤ after.ring.cursor
  content : ∀ sequence, sequence ≤ before.ring.cursor →
    after.ring.content sequence = before.ring.content sequence
  moves : ∀ id, (before.processors id).Moves (after.processors id)

variable {disruptor}

theorem open_closed {state : State β} {id : Nat} {first second : Int} (le : first ≤ second)
    (isOpen : state.Open disruptor id second) : state.Open disruptor id first :=
  ⟨le.trans isOpen.1, fun other member => le.trans (isOpen.2 other member)⟩

theorem inv_initial (entries : Nat → β) : Inv disruptor (initial disruptor entries) where
  ring := Publishing.inv_initial entries fun _ _ => le_rfl
  processors := fun _ _ => BatchEventProcessor.sound_initial ⟨le_rfl, fun _ _ => le_rfl⟩
  shutdown := trivial

theorem Inv.sequence_le {state : State β} (inv : Inv disruptor state) {later id : Nat}
    (known : later < disruptor.count) (member : id ∈ disruptor.barrier later) :
    (state.processors later).sequence ≤ (state.processors id).sequence :=
  (inv.processors later known).stored.2 id member

theorem Inv.open_of_opens {state : State β} (inv : Inv disruptor state) {id : Nat}
    (known : id < disruptor.count) {sequence : Int}
    (opens : state.opens disruptor id sequence = true) : state.Open disruptor id sequence := by
  unfold State.opens at opens
  split at opens
  case isTrue untracked =>
    refine ⟨of_decide_eq_true opens, fun other member => ?_⟩
    rw [untracked] at member
    exact absurd member List.not_mem_nil
  case isFalse tracks =>
    have below : ∀ other ∈ disruptor.barrier id,
        sequence ≤ (state.processors other).sequence :=
      fun other member => of_decide_eq_true (List.all_eq_true.mp opens other member)
    obtain ⟨other, member⟩ := List.exists_mem_of_ne_nil _ tracks
    have tracked := (disruptor.earlier id known other member).trans known
    exact ⟨(below other member).trans (inv.processors other tracked).stored.1, below⟩

/-- No processor is behind every gating sequence: from one that the ring buffer is not gated
on there is a chain of others that track it. -/
theorem Inv.gating_le {state : State β} (inv : Inv disruptor state) {id : Nat}
    (known : id < disruptor.count) :
    ∃ index < disruptor.gating.length,
      state.gating disruptor index ≤ (state.processors id).sequence := by
  rcases disruptor.ends id known with isEnd | tracked
  · obtain ⟨index, below, isIndex⟩ := List.getElem_of_mem isEnd
    refine ⟨index, below, ?_⟩
    rw [State.gating, List.getD_eq_getElem _ _ below, isIndex]
  · obtain ⟨later, below, member⟩ := tracked
    have above := disruptor.earlier later below id member
    obtain ⟨index, inside, le⟩ := inv.gating_le below
    exact ⟨index, inside, le.trans (inv.sequence_le below member)⟩
termination_by disruptor.count - id

theorem Inv.exists_gating_le {state : State β} (inv : Inv disruptor state) :
    ∃ index < disruptor.buffer.gatingCount,
      state.gating disruptor index ≤ state.ring.cursor := by
  obtain ⟨index, below, le⟩ := inv.gating_le disruptor.positive
  exact ⟨index, below, le.trans (inv.processors 0 disruptor.positive).stored.1⟩

/-- What is published and not stored as handled by a processor is in its slot. -/
theorem Inv.slot {state : State β} (inv : Inv disruptor state) {id : Nat}
    (known : id < disruptor.count) {sequence : Int}
    (ahead : (state.processors id).sequence < sequence)
    (published : sequence ≤ state.ring.cursor) :
    state.ring.entry disruptor.buffer sequence = state.ring.content sequence := by
  obtain ⟨index, below, le⟩ := inv.gating_le known
  exact inv.ring.slot below (le.trans_lt ahead) published

theorem Shutdown.Agrees.mono {count : Nat} {processors later : Nat → BatchEventProcessor β}
    {shutdown : Shutdown} (agrees : shutdown.Agrees count processors)
    (moves : ∀ id, (processors id).Moves (later id)) : shutdown.Agrees count later := by
  cases shutdown with
  | idle => trivial
  | checking cursor unlisted listed passed =>
      exact ⟨agrees.1, fun id member => ⟨(agrees.2 id member).1,
        (agrees.2 id member).2.trans (moves id).forward⟩⟩
  | drained cursor passed =>
      exact fun id member => ⟨(agrees id member).1,
        (agrees id member).2.trans (moves id).forward⟩

theorem moves_refl (processor : BatchEventProcessor β) : processor.Moves processor :=
  ⟨le_rfl, List.prefix_rfl, List.prefix_rfl⟩

/-- Barriers only ever let more pass. -/
theorem follows_of_moves {before after : State β}
    (ring : Publishing.Follows disruptor.buffer (before.gating disruptor) before.ring after.ring)
    (moves : ∀ id, (before.processors id).Moves (after.processors id))
    (sound : ∀ id < disruptor.count, (after.processors id).Sound (before.Open disruptor id)
      before.ring.content)
    (shutdown : after.shutdown.Agrees disruptor.count after.processors) :
    Follows disruptor before after where
  inv :=
    { ring := ring.inv.mono fun _ _ => (moves _).forward
      processors := by
        intro id known
        apply (sound id known).mono
        intro sequence opened
        exact ⟨⟨opened.1.trans ring.published, fun other member =>
          (opened.2 other member).trans (moves other).forward⟩, ring.content sequence opened.1⟩
      shutdown := shutdown }
  published := ring.published
  content := ring.content
  moves := moves

theorem Inv.ring_same {state : State β} (inv : Inv disruptor state) :
    Publishing.Follows disruptor.buffer (state.gating disruptor) state.ring state.ring :=
  ⟨inv.ring, le_rfl, fun _ _ => rfl⟩

theorem process_follows {before after : State β} {id : Nat}
    {action : BatchEventProcessor.Action} (inv : Inv disruptor before)
    (stepped : step disruptor before (.process id action) = some after) :
    Follows disruptor before after := by
  rcases Option.ite_none_right_eq_some.mp stepped with ⟨known, stepped⟩
  rcases Option.map_eq_some_iff.mp stepped with ⟨processor, processed, isAfter⟩
  cases isAfter
  obtain ⟨sound, moves⟩ := BatchEventProcessor.step_sound open_closed (inv.processors id known)
    (fun sequence ahead opened => inv.slot known ahead opened.1)
    (fun sequence opens => inv.open_of_opens known opens) processed
  have allMoves : ∀ other, (before.processors other).Moves
      (Function.update before.processors id processor other) := by
    intro other
    by_cases isThis : other = id
    · rw [isThis, Function.update_self]
      exact moves
    · rw [Function.update_of_ne isThis]
      exact moves_refl _
  have allSound : ∀ other < disruptor.count,
      (Function.update before.processors id processor other).Sound
        (before.Open disruptor other) before.ring.content := by
    intro other isKnown
    by_cases isThis : other = id
    · rw [isThis, Function.update_self]
      exact sound
    · rw [Function.update_of_ne isThis]
      exact inv.processors other isKnown
  exact follows_of_moves inv.ring_same allMoves allSound (inv.shutdown.mono allMoves)

/-- What `shutdown` does leaves everyone alone. -/
theorem Inv.shuts {state : State β} (inv : Inv disruptor state) {shutdown : Shutdown}
    (agrees : shutdown.Agrees disruptor.count state.processors) :
    Follows disruptor state { state with shutdown := shutdown } :=
  follows_of_moves inv.ring_same (fun _ => moves_refl _) inv.processors agrees

theorem step_follows {before after : State β} {action : Action β} (inv : Inv disruptor before)
    (stepped : step disruptor before action = some after) : Follows disruptor before after := by
  have shutdown := inv.shutdown
  cases action with
  | produce action =>
      rcases Option.map_eq_some_iff.mp stepped with ⟨ring, produced, isAfter⟩
      cases isAfter
      exact follows_of_moves (Publishing.step_follows inv.ring inv.exists_gating_le produced)
        (fun _ => moves_refl _) inv.processors shutdown
  | process id action => exact process_follows inv stepped
  | shutdown =>
      rcases Option.ite_none_right_eq_some.mp stepped with ⟨-, isAfter⟩
      cases isAfter
      exact inv.shuts ⟨fun id member => disruptor.known id (member.resolve_right List.not_mem_nil),
        fun _ member => absurd member List.not_mem_nil⟩
  | list =>
      simp only [step] at stepped
      split at stepped
      case h_2 => cases stepped
      case h_1 cursor id unlisted listed passed checking =>
        cases stepped
        rw [checking] at shutdown
        apply inv.shuts
        refine ⟨fun other member => ?_, shutdown.2⟩
        apply shutdown.1 other
        rcases member with still | isListed
        · exact .inl (List.mem_cons_of_mem _ still)
        · split at isListed
          case isTrue =>
            rcases List.mem_append.mp isListed with earlier | isNew
            · exact .inr earlier
            · exact .inl (List.mem_singleton.mp isNew ▸ List.mem_cons_self)
          case isFalse => exact .inr isListed
  | compare =>
      simp only [step] at stepped
      split at stepped
      case h_2 => cases stepped
      case h_1 cursor id listed passed checking =>
        cases stepped
        rw [checking] at shutdown
        apply inv.shuts
        split
        case isTrue => trivial
        case isFalse reached =>
          refine ⟨fun other member => shutdown.1 other ?_, fun other member => ?_⟩
          · exact .inr (List.mem_cons_of_mem _ (member.resolve_left List.not_mem_nil))
          · rcases List.mem_append.mp member with earlier | isNew
            · exact shutdown.2 other earlier
            · rw [List.mem_singleton.mp isNew]
              exact ⟨shutdown.1 id (.inr List.mem_cons_self), not_lt.mp reached⟩
  | leave =>
      simp only [step] at stepped
      split at stepped
      case h_2 => cases stepped
      case h_1 cursor passed checking =>
        cases stepped
        rw [checking] at shutdown
        exact inv.shuts shutdown.2

theorem run_follows {before after : State β} {actions : List (Action β)}
    (inv : Inv disruptor before)
    (ran : Machine.run (step disruptor) before actions = some after) :
    Follows disruptor before after := by
  have start : Follows disruptor before before :=
    ⟨inv, le_rfl, fun _ _ => rfl, fun _ => moves_refl _⟩
  refine Machine.run_invariant (Follows disruptor before) ?_ start ran
  intro middle last action follows stepped
  have further := step_follows follows.inv stepped
  exact
    { inv := further.inv
      published := follows.published.trans further.published
      content := fun sequence shown =>
        (further.content sequence (shown.trans follows.published)).trans
          (follows.content sequence shown)
      moves := fun id => ⟨(follows.moves id).forward.trans (further.moves id).forward,
        (follows.moves id).calls.trans (further.moves id).calls,
        (follows.moves id).handled.trans (further.moves id).handled⟩ }

theorem run_inv {entries : Nat → β} {state : State β} {actions : List (Action β)}
    (ran : Machine.run (step disruptor) (initial disruptor entries) actions = some state) :
    Inv disruptor state :=
  (run_follows (inv_initial entries) ran).inv

/-! ### Delivery -/

/-- A processor's handler sees published events only, each as it stays from then on, and
after all that its barrier tracks are done with it. A processor is done with everything up
to its sequence, and what comes after that is kept in its slots, however far another
processor is. -/
theorem run_delivers {entries : Nat → β} {first second : List (Action β)}
    {before after : State β}
    (ran : Machine.run (step disruptor) (initial disruptor entries) first = some before)
    (later : Machine.run (step disruptor) before second = some after) :
    ∀ id < disruptor.count,
      (before.processors id).calls <+: (after.processors id).calls ∧
      (∀ call ∈ (before.processors id).calls,
        0 ≤ call.sequence ∧ call.sequence ≤ before.ring.cursor ∧
        call.event = after.ring.content call.sequence ∧
        ∀ other ∈ disruptor.barrier id, call.sequence ∈ (before.processors other).handled) ∧
      (∀ sequence, 0 ≤ sequence → sequence ≤ (before.processors id).sequence →
        sequence ∈ (before.processors id).handled) ∧
      ∀ sequence, (after.processors id).sequence < sequence → sequence ≤ before.ring.cursor →
        after.ring.entry disruptor.buffer sequence = before.ring.content sequence := by
  intro id known
  have inv := run_inv ran
  have follows := run_follows inv later
  have sound := inv.processors id known
  have handled : ∀ {other : Nat} {sequence : Int}, other < disruptor.count → 0 ≤ sequence →
      sequence ≤ (before.processors other).sequence →
        sequence ∈ (before.processors other).handled := by
    intro other sequence isKnown nonneg atMost
    have its := inv.processors other isKnown
    exact its.covers sequence nonneg (atMost.trans_lt its.behind)
  refine ⟨(follows.moves id).calls, ?_, fun sequence => handled known, ?_⟩
  · intro call member
    obtain ⟨nonneg, opened, event⟩ := sound.calls call member
    refine ⟨nonneg, opened.1, event.trans (follows.content _ opened.1).symm, ?_⟩
    intro other tracked
    exact handled ((disruptor.earlier id known other tracked).trans known) nonneg
      (opened.2 other tracked)
  · intro sequence ahead published
    rw [follows.inv.slot known ahead (published.trans follows.published)]
    exact follows.content sequence published

/-! ### Each event once -/

/-- Every processor is done with each event before the one it goes on with, once and in
order. -/
def Delivering (disruptor : StartedDisruptor) (state : State β) : Prop :=
  ∀ id < disruptor.count, (state.processors id).handled =
    sequences 0 ((state.processors id).next - 1)

/-- A processor leaves its loop while it is done with events that it has not stored. -/
def LeavesBatch (state : State β) : Action β → Prop
  | .process id action => action.leaves (state.processors id).running = true ∧
      (state.processors id).sequence + 1 ≠ (state.processors id).next
  | _ => False

end StartedDisruptor

namespace BatchEventProcessor

variable {β : Type*} {isOpen : Int → Prop} {content : Int → β}

/-- A processor that goes back to what it has stored keeps the order when it has stored
everything that it is done with. -/
theorem ordered_back_iff {processor : BatchEventProcessor β} {nextSequence : Int}
    (start : -1 ≤ processor.sequence) (behind : processor.sequence < nextSequence)
    (ordered : processor.handled = sequences 0 (nextSequence - 1)) :
    processor.handled = sequences 0 (processor.sequence + 1 - 1) ↔
      ¬ processor.sequence + 1 ≠ nextSequence := by
  rw [ordered, add_sub_cancel_right, not_ne_iff]
  constructor
  · intro same
    have lengths := congrArg List.length same
    rw [sequences, sequences, List.length_map, List.length_map, List.length_range,
      List.length_range] at lengths
    omega
  · intro stored
    rw [← stored, add_sub_cancel_right]

theorem onAlert_ordered_iff {processor : BatchEventProcessor β} {nextSequence : Int}
    (start : -1 ≤ processor.sequence) (behind : processor.sequence < nextSequence)
    (ordered : processor.handled = sequences 0 (nextSequence - 1)) :
    (processor.onAlert nextSequence).handled =
        sequences 0 ((processor.onAlert nextSequence).next - 1) ↔
      ¬ ((!processor.running) = true ∧ processor.sequence + 1 ≠ nextSequence) := by
  rw [onAlert]
  split
  case isTrue running =>
    refine iff_of_true ordered fun leaves => ?_
    rw [running] at leaves
    cases leaves.1
  case isFalse halted =>
    rw [Bool.not_eq_true] at halted
    refine (ordered_back_iff start behind ordered).trans (not_congr ?_)
    rw [halted]
    exact (and_iff_right rfl).symm

/-- A step of a processor, whatever it handles, keeps the order unless the processor goes
back behind what it is done with. -/
theorem ordered_iff {processor after : BatchEventProcessor β} {action : Action}
    {opens : Int → Bool} {entry : Int → β} (sound : processor.Sound isOpen content)
    (ordered : processor.handled = sequences 0 (processor.next - 1))
    (stepped : step opens entry processor action = some after) :
    after.handled = sequences 0 (after.next - 1) ↔
      ¬ (action.leaves processor.running = true ∧
        processor.sequence + 1 ≠ processor.next) := by
  have start := sound.start
  have behind := sound.behind
  -- A step that handles nothing keeps the order when it keeps what comes next.
  have stays : ∀ {other : BatchEventProcessor β}, other.handled = processor.handled →
      other.next = processor.next → other.handled = sequences 0 (other.next - 1) := by
    intro other handled next
    rw [handled, next, ordered]
  cases action with
  | run =>
      simp only [step] at stepped
      split at stepped
      case isTrue =>
        cases stepped
        exact iff_of_true ordered fun leaves => by cases leaves.1
      case isFalse =>
        rcases Option.ite_none_right_eq_some.mp stepped with ⟨idle, isAfter⟩
        cases isAfter
        exact iff_of_true (stays rfl (by rw [next, next, idle])) fun leaves => by cases leaves.1
  | notifyStart =>
      simp only [step] at stepped
      split at stepped
      case h_2 => cases stepped
      case h_1 starting =>
        cases stepped
        exact iff_of_true (stays rfl (by rw [next, next, starting])) fun leaves => by
          cases leaves.1
  | waited availableSequence =>
      simp only [step] at stepped
      split at stepped
      case h_2 => cases stepped
      case h_1 nextSequence waiting =>
        rcases Option.ite_none_right_eq_some.mp stepped with ⟨-, isAfter⟩
        cases isAfter
        exact iff_of_true (stays rfl (by rw [next, next, waiting])) fun leaves => by
          cases leaves.1
  | woken =>
      simp only [step] at stepped
      split at stepped
      case h_2 => cases stepped
      case h_1 nextSequence waiting =>
        cases stepped
        exact iff_of_true (stays rfl (by rw [next, next, waiting]; exact sub_add_cancel _ _))
          fun leaves => by cases leaves.1
  | onEvent leaving =>
      simp only [step] at stepped
      split at stepped
      case h_2 => cases stepped
      case h_1 nextSequence availableSequence handling =>
        cases stepped
        have isNext : processor.next = nextSequence := by rw [next, handling]
        have inBatch : nextSequence ≤ availableSequence := by
          have stage := sound.stage
          rw [handling] at stage
          exact stage.1
        rw [isNext] at ordered behind
        have further : processor.handled ++ [nextSequence] = sequences 0 nextSequence := by
          have more := sequences_succ (show (0 : Int) ≤ nextSequence - 1 + 1 by omega)
          rw [sub_add_cancel] at more
          rw [ordered, more]
        cases leaving with
        | returns =>
            refine iff_of_true ?_ fun leaves => by cases leaves.1
            have after : (processor.onEvent entry nextSequence availableSequence .returns).next =
                nextSequence + 1 := by
              simp only [onEvent, next]
              by_cases more : nextSequence + 1 ≤ availableSequence
              · rw [if_pos more]
              · rw [if_neg more]
                show availableSequence + 1 = nextSequence + 1
                omega
            rw [after, add_sub_cancel_right]
            exact further
        | throws =>
            refine iff_of_true ?_ fun leaves => by cases leaves.1
            show processor.handled ++ [nextSequence] = sequences 0 (nextSequence + 1 - 1)
            rw [further, add_sub_cancel_right]
        | throwsTimeout =>
            exact iff_of_true ordered fun leaves => by cases leaves.1
        | throwsAlert =>
            rw [isNext]
            have back : ((processor.called entry nextSequence availableSequence).onAlert
                nextSequence).handled = _ ↔ _ := onAlert_ordered_iff start behind ordered
            exact back
        | escapes =>
            rw [isNext]
            have back : processor.handled = sequences 0 (processor.sequence + 1 - 1) ↔ _ :=
              ordered_back_iff start behind ordered
            exact back.trans (not_congr (and_iff_right rfl).symm)
  | store =>
      simp only [step] at stepped
      split at stepped
      case h_2 => cases stepped
      case h_1 sequence storing =>
        cases stepped
        exact iff_of_true (stays rfl (by rw [next, next, storing])) fun leaves => by cases leaves.1
  | timeout =>
      simp only [step] at stepped
      split at stepped
      case h_2 => cases stepped
      case h_1 =>
        cases stepped
        exact iff_of_true ordered fun leaves => by cases leaves.1
  | alerted =>
      simp only [step] at stepped
      split at stepped
      case h_2 => cases stepped
      case h_1 nextSequence waiting =>
        cases stepped
        have isNext : processor.next = nextSequence := by rw [next, waiting]
        rw [isNext] at ordered behind ⊢
        exact onAlert_ordered_iff start behind ordered
  | escapes =>
      have back := (ordered_back_iff start behind ordered).trans
        (not_congr (and_iff_right (show Action.leaves processor.running .escapes from rfl)).symm)
      simp only [step] at stepped
      split at stepped
      case h_4 => cases stepped
      all_goals
        cases stepped
        exact back
  | notifyShutdown =>
      simp only [step] at stepped
      split at stepped
      case h_2 => cases stepped
      case h_1 leaving =>
        cases stepped
        exact iff_of_true (stays rfl (by rw [next, next, leaving])) fun leaves => by
          cases leaves.1
  | halt =>
      cases stepped
      exact iff_of_true ordered fun leaves => by cases leaves.1

end BatchEventProcessor

namespace StartedDisruptor

variable {β : Type*} {disruptor : StartedDisruptor}

theorem delivering_initial (entries : Nat → β) :
    Delivering disruptor (initial disruptor entries) :=
  fun _ _ => rfl

/-- A step of one processor delivers exactly when it does not leave a batch. -/
theorem delivering_process_iff {before after : State β} {id : Nat}
    {action : BatchEventProcessor.Action} (inv : Inv disruptor before)
    (delivering : Delivering disruptor before)
    (stepped : step disruptor before (.process id action) = some after) :
    Delivering disruptor after ↔ ¬ LeavesBatch before (.process id action) := by
  rcases Option.ite_none_right_eq_some.mp stepped with ⟨known, stepped⟩
  rcases Option.map_eq_some_iff.mp stepped with ⟨processor, processed, isAfter⟩
  cases isAfter
  have one := BatchEventProcessor.ordered_iff (inv.processors id known) (delivering id known)
    processed
  refine Iff.trans ?_ one
  constructor
  · intro all
    have this := all id known
    simp only [Function.update_self] at this
    exact this
  · intro ordered other isKnown
    by_cases isThis : other = id
    · simp only [isThis, Function.update_self]
      exact ordered
    · simp only [Function.update_of_ne isThis]
      exact delivering other isKnown

/-- Other steps leave the processors alone. -/
theorem processors_same {before after : State β} {action : Action β}
    (other : ∀ id its, action ≠ .process id its)
    (stepped : step disruptor before action = some after) :
    after.processors = before.processors := by
  cases action with
  | produce action =>
      rcases Option.map_eq_some_iff.mp stepped with ⟨ring, -, isAfter⟩
      cases isAfter
      rfl
  | process id action => exact absurd rfl (other id action)
  | shutdown =>
      rcases Option.ite_none_right_eq_some.mp stepped with ⟨-, isAfter⟩
      cases isAfter
      rfl
  | list | compare | leave =>
      simp only [step] at stepped
      split at stepped
      case h_1 =>
        cases stepped
        rfl
      case h_2 => cases stepped

theorem delivering_iff {before after : State β} {action : Action β} (inv : Inv disruptor before)
    (delivering : Delivering disruptor before)
    (stepped : step disruptor before action = some after) :
    Delivering disruptor after ↔ ¬ LeavesBatch before action := by
  by_cases own : ∃ id its, action = .process id its
  · obtain ⟨id, its, isProcess⟩ := own
    subst isProcess
    exact delivering_process_iff inv delivering stepped
  · have other : ∀ id its, action ≠ .process id its := fun id its isProcess =>
      own ⟨id, its, isProcess⟩
    refine iff_of_true ?_ ?_
    · rw [Delivering, processors_same other stepped]
      exact delivering
    · cases action with
      | process id its => exact absurd rfl (other id its)
      | produce _ | shutdown | list | compare | leave => exact not_false

/-- Two processors side by side and one after both, over two slots. -/
def sampleWiring : Wiring.State Nat where
  consumers := [⟨0, [], false⟩, ⟨1, [], false⟩, ⟨2, [0, 1], true⟩]
  groups := [[0, 1], [2]]
  gating := [2]
  started := true

theorem sampleWiring_wired : Wiring.Wired sampleWiring := by
  have ran : Machine.run Wiring.step Wiring.initial Wiring.sampleActions = some sampleWiring := by
    decide
  exact Wiring.run_wired ran

def sampleDisruptor : StartedDisruptor :=
  sampleWiring.disruptor sampleWiring_wired rfl (Nat.succ_pos 2) 1 (Nat.le_add_left 1 29)

/-! ### No event is left waiting -/

/-- What a processor does, once it runs, without a timeout, an alert, a halt or an exception,
and when its wait brings something new. -/
def Action.Quiet : Action β → Prop
  | .process _ .notifyStart | .process _ (.waited _) | .process _ (.onEvent .returns)
  | .process _ .store | .process _ .notifyShutdown => True
  | _ => False

/-- How many such steps a processor has left until it waits for more than the cursor. -/
def weight (cursor : Int) (processor : BatchEventProcessor β) : Nat :=
  match processor.stage with
  | .idle => 0
  | .starting => (3 * (cursor - processor.sequence) + 1).toNat
  | .waiting nextSequence => (3 * (cursor + 1 - nextSequence)).toNat
  | .handling nextSequence availableSequence =>
      (availableSequence + 1 - nextSequence + 3 * (cursor - availableSequence) + 1).toNat
  | .storing sequence => (3 * (cursor - sequence) + 1).toNat
  | .leaving => 1

theorem process_nearer {cursor : Int} {isOpen : Int → Prop} {content entry : Int → β}
    {processor after : BatchEventProcessor β} {opens : Int → Bool} {id : Nat}
    {action : BatchEventProcessor.Action} (sound : processor.Sound isOpen content)
    (published : ∀ sequence, isOpen sequence → sequence ≤ cursor)
    (open_of_opens : ∀ sequence, opens sequence = true → isOpen sequence)
    (quiet : (Action.process id action : Action β).Quiet)
    (stepped : BatchEventProcessor.step opens entry processor action = some after) :
    weight cursor after < weight cursor processor := by
  cases action with
  | notifyStart =>
      simp only [BatchEventProcessor.step] at stepped
      split at stepped
      case h_2 => cases stepped
      case h_1 starting =>
        cases stepped
        have stored := published _ sound.stored
        simp only [weight, starting]
        omega
  | waited availableSequence =>
      simp only [BatchEventProcessor.step] at stepped
      split at stepped
      case h_2 => cases stepped
      case h_1 nextSequence waiting =>
        rcases Option.ite_none_right_eq_some.mp stepped with ⟨opened, isAfter⟩
        cases isAfter
        have batch := published _ (open_of_opens _ opened.2)
        simp only [weight, waiting]
        omega
  | onEvent leaving =>
      cases leaving with
      | returns =>
          simp only [BatchEventProcessor.step] at stepped
          split at stepped
          case h_2 => cases stepped
          case h_1 nextSequence availableSequence handling =>
            cases stepped
            have stage := sound.stage
            rw [handling] at stage
            obtain ⟨inBatch, batch⟩ := stage
            have shown := published _ batch
            by_cases more : nextSequence + 1 ≤ availableSequence
            · simp only [weight, BatchEventProcessor.onEvent, handling, if_pos more]
              omega
            · simp only [weight, BatchEventProcessor.onEvent, handling, if_neg more]
              omega
      | throws | throwsTimeout | throwsAlert | escapes => exact absurd quiet not_false
  | store =>
      simp only [BatchEventProcessor.step] at stepped
      split at stepped
      case h_2 => cases stepped
      case h_1 sequence storing =>
        cases stepped
        have reached := published _ sound.reached
        have isNext : processor.next = sequence + 1 := by
          rw [BatchEventProcessor.next, storing]
        rw [isNext] at reached
        simp only [weight, storing]
        omega
  | notifyShutdown =>
      simp only [BatchEventProcessor.step] at stepped
      split at stepped
      case h_2 => cases stepped
      case h_1 leaving =>
        cases stepped
        simp only [weight, leaving]
        exact Nat.one_pos
  | run | woken | timeout | alerted | escapes | halt => exact absurd quiet not_false

def State.quietSteps (disruptor : StartedDisruptor) (state : State β) : Nat :=
  Machine.totalWeight disruptor.count (weight state.ring.cursor) state.processors

theorem quiet_lowers {before after : State β} {action : Action β} (inv : Inv disruptor before)
    (quiet : action.Quiet) (stepped : step disruptor before action = some after) :
    after.quietSteps disruptor < before.quietSteps disruptor := by
  cases action with
  | process id action =>
      rcases Option.ite_none_right_eq_some.mp stepped with ⟨known, stepped⟩
      rcases Option.map_eq_some_iff.mp stepped with ⟨processor, processed, isAfter⟩
      cases isAfter
      have nearer := process_nearer (inv.processors id known) (fun _ opened => opened.1)
        (fun sequence opens => inv.open_of_opens known opens) quiet processed
      have moved := Machine.totalWeight_update known (weight before.ring.cursor)
        before.processors processor
      simp only [State.quietSteps]
      omega
  | produce _ | shutdown | list | compare | leave => exact absurd quiet id

theorem opens_of_open {state : State β} {id : Nat} {sequence : Int}
    (isOpen : state.Open disruptor id sequence) : state.opens disruptor id sequence = true := by
  unfold State.opens
  split
  case isTrue => exact decide_eq_true isOpen.1
  case isFalse =>
    exact List.all_eq_true.mpr fun other tracked => decide_eq_true (isOpen.2 other tracked)

/-- A processor has nothing to do: it is not in `run`, or waits at its barrier. -/
def Rests (disruptor : StartedDisruptor) (state : State β) (id : Nat) : BatchStage → Prop
  | .idle => True
  | .waiting nextSequence => ¬ state.Open disruptor id nextSequence
  | .starting | .handling _ _ | .storing _ | .leaving => False

theorem rests_of_stuck {state : State β} {id : Nat}
    (stuck : ∀ action : BatchEventProcessor.Action,
      (Action.process id action : Action β).Quiet →
      BatchEventProcessor.step (state.opens disruptor id) (state.ring.entry disruptor.buffer)
        (state.processors id) action = none) :
    Rests disruptor state id (state.processors id).stage := by
  cases stage : (state.processors id).stage with
  | idle => trivial
  | starting =>
      have refused := stuck .notifyStart trivial
      simp [BatchEventProcessor.step, stage] at refused
  | handling nextSequence availableSequence =>
      have refused := stuck (.onEvent .returns) trivial
      simp [BatchEventProcessor.step, stage] at refused
  | storing sequence =>
      have refused := stuck .store trivial
      simp [BatchEventProcessor.step, stage] at refused
  | leaving =>
      have refused := stuck .notifyShutdown trivial
      simp [BatchEventProcessor.step, stage] at refused
  | waiting nextSequence =>
      intro isOpen
      have refused := stuck (.waited nextSequence) trivial
      simp [BatchEventProcessor.step, stage, opens_of_open isOpen] at refused

theorem Inv.stuck_of_rests {state : State β} (inv : Inv disruptor state) {id : Nat}
    (known : id < disruptor.count) (rests : Rests disruptor state id (state.processors id).stage)
    {action : BatchEventProcessor.Action} (quiet : (Action.process id action : Action β).Quiet) :
    BatchEventProcessor.step (state.opens disruptor id) (state.ring.entry disruptor.buffer)
      (state.processors id) action = none := by
  cases stage : (state.processors id).stage with
  | starting | handling _ _ | storing _ | leaving =>
      rw [stage] at rests
      exact rests.elim
  | idle =>
      cases action <;> first | exact absurd quiet not_false | simp [BatchEventProcessor.step, stage]
  | waiting nextSequence =>
      rw [stage] at rests
      cases action with
      | notifyStart | onEvent _ | store | notifyShutdown => simp [BatchEventProcessor.step, stage]
      | waited availableSequence =>
          simp only [BatchEventProcessor.step, stage]
          refine if_neg fun opens => ?_
          exact rests (open_closed opens.1 (inv.open_of_opens known opens.2))
      | run | woken | timeout | alerted | escapes | halt => exact absurd quiet not_false

/-- A processor in its loop that has nothing to do has stored what its barrier lets pass. -/
theorem Inv.stored_of_rests {state : State β} (inv : Inv disruptor state) {id : Nat}
    (known : id < disruptor.count) (rests : Rests disruptor state id (state.processors id).stage)
    (inLoop : (state.processors id).stage ≠ .idle) {sequence : Int}
    (isOpen : state.Open disruptor id sequence) :
    sequence ≤ (state.processors id).sequence := by
  have sound := inv.processors id known
  have agrees := sound.stage
  cases stage : (state.processors id).stage with
  | idle => exact absurd stage inLoop
  | starting | handling _ _ | storing _ | leaving =>
      rw [stage] at rests
      exact rests.elim
  | waiting nextSequence =>
      rw [stage] at rests agrees
      have below : sequence < nextSequence := by
        by_contra reached
        exact rests (open_closed (not_lt.mp reached) isOpen)
      rcases agrees with stored | opened
      · omega
      · exact absurd opened rests

/-- When all that a processor waits for, directly or not, have stored what their barriers let
pass, it has come to the cursor: by induction along the chains, since barriers track earlier
processors. -/
theorem cursor_of_stored {state : State β} {id : Nat} (known : id < disruptor.count)
    (stored : ∀ other, Relation.ReflTransGen (fun waits waited => waited ∈ disruptor.barrier waits)
      id other → ∀ sequence, state.Open disruptor other sequence →
        sequence ≤ (state.processors other).sequence) :
    state.ring.cursor ≤ (state.processors id).sequence := by
  refine stored id .refl _ ⟨le_rfl, fun other tracked => ?_⟩
  have above := disruptor.earlier id known other tracked
  exact cursor_of_stored (above.trans known) fun further chain =>
    stored further (.head tracked chain)
termination_by id

/-! ### Shutdown -/

/-- A processor is no further than those it waits for, directly or not. -/
theorem Inv.sequence_le_chain {state : State β} (inv : Inv disruptor state) {later id : Nat}
    (known : later < disruptor.count)
    (chain : Relation.ReflTransGen (fun waits waited => waited ∈ disruptor.barrier waits)
      later id) :
    id < disruptor.count ∧
      (state.processors later).sequence ≤ (state.processors id).sequence := by
  induction chain with
  | refl => exact ⟨known, le_rfl⟩
  | tail _ tracked inductionHypothesis =>
      obtain ⟨isKnown, le⟩ := inductionHypothesis
      exact ⟨(disruptor.earlier _ isKnown _ tracked).trans isKnown,
        le.trans (inv.sequence_le isKnown tracked)⟩

/-- When `shutdown` has left its loop, the ends of chains that it found running, and all
they wait for, directly or not, are done with everything published up to the cursor that it
read; when it found all ends running, all processors are. -/
theorem shutdown_drained {entries : Nat → β} {actions : List (Action β)} {state : State β}
    (ran : Machine.run (step disruptor) (initial disruptor entries) actions = some state)
    {cursor : Int} {passed : List Nat} (drained : state.shutdown = .drained cursor passed) :
    (∀ later ∈ passed, ∀ id,
      Relation.ReflTransGen (fun waits waited => waited ∈ disruptor.barrier waits) later id →
      ∀ sequence, 0 ≤ sequence → sequence ≤ cursor →
        sequence ∈ (state.processors id).handled) ∧
    ((∀ id ∈ disruptor.gating, id ∈ passed) → ∀ id < disruptor.count,
      ∀ sequence, 0 ≤ sequence → sequence ≤ cursor →
        sequence ∈ (state.processors id).handled) := by
  have inv := run_inv ran
  have reached := inv.shutdown
  rw [drained] at reached
  have done : ∀ {id : Nat} {sequence : Int}, id < disruptor.count →
      cursor ≤ (state.processors id).sequence → 0 ≤ sequence → sequence ≤ cursor →
        sequence ∈ (state.processors id).handled := by
    intro id sequence known upTo nonneg atMost
    have sound := inv.processors id known
    exact sound.covers sequence nonneg ((atMost.trans upTo).trans_lt sound.behind)
  constructor
  · intro later isPassed id chain sequence
    obtain ⟨known, upTo⟩ := reached later isPassed
    obtain ⟨isKnown, le⟩ := inv.sequence_le_chain known chain
    exact done isKnown (upTo.trans le)
  · intro all id known sequence
    obtain ⟨index, below, le⟩ := inv.gating_le known
    rw [State.gating, List.getD_eq_getElem _ _ below] at le
    exact done known ((reached _ (all _ (List.getElem_mem below))).2.trans le)

/-- All processors run and handle the event, and the end of the chain is found running. -/
def sampleShutdown : List (Action Nat) :=
  [.process 0 .run, .process 1 .run, .process 2 .run, .process 0 .notifyStart,
    .process 1 .notifyStart, .process 2 .notifyStart, .produce (.call ⟨false, 1⟩),
    .produce (.write 0 7), .produce .publish, .process 0 (.waited 0),
    .process 0 (.onEvent .returns), .process 0 .store, .process 1 (.waited 0),
    .process 1 (.onEvent .returns), .process 1 .store, .process 2 (.waited 0),
    .process 2 (.onEvent .returns), .process 2 .store, .shutdown, .list, .compare, .leave]

theorem shutdown_drained_sample :
    ∃ state, Machine.run (step sampleDisruptor) (initial sampleDisruptor fun _ => 0)
        sampleShutdown = some state ∧
      state.shutdown = .drained 0 [2] ∧
      ∀ id < sampleDisruptor.count, 0 ∈ (state.processors id).handled := by
  have drained : (Machine.run (step sampleDisruptor) (initial sampleDisruptor fun _ => 0)
      sampleShutdown).map State.shutdown = some (.drained 0 [2]) := by decide
  rcases Option.map_eq_some_iff.mp drained with ⟨state, ran, drained⟩
  exact ⟨state, ran, drained, fun id known =>
    (shutdown_drained ran drained).2 (fun _ member => member) id known 0 le_rfl le_rfl⟩

end StartedDisruptor

end Dift.Disruptor
