import Dift.Disruptor.BatchEventProcessor

/-!
Owns `BatchEventProcessor::run` as it may be called, by any thread at any time. A call is
refused while `m_running` is set; `halt` clears it at once, so that a thread may begin
while another one is still in the loop, and both then work with one sequence. The results
are about the runs in which each thread begins after the one before has left `run`.
-/

namespace Dift.Disruptor

open Dift.Foundation

/-- A processor with the threads that are in its `run`. -/
structure SharedProcessor (β : Type*) where
  running : Bool
  sequence : Int
  threads : List BatchStage
  calls : List (OnEvent β)
  handled : List Int
deriving DecidableEq, Repr

namespace SharedProcessor

variable {β : Type*}

def initial : SharedProcessor β where
  running := false
  sequence := -1
  threads := []
  calls := []
  handled := []

/-- What the processor is to one of its threads. -/
def thread (processor : SharedProcessor β) (stage : BatchStage) : BatchEventProcessor β where
  running := processor.running
  sequence := processor.sequence
  stage := stage
  calls := processor.calls
  handled := processor.handled

/-- A thread has moved; one that has left `run` is gone. -/
def moved (processor : SharedProcessor β) (index : Nat) (after : BatchEventProcessor β) :
    SharedProcessor β where
  running := after.running
  sequence := after.sequence
  threads :=
    if after.stage = .idle then processor.threads.eraseIdx index
    else processor.threads.set index after.stage
  calls := after.calls
  handled := after.handled

/-- `m_running` is set, unless it was: then the call throws `InvalidOperationException`. -/
def run (processor : SharedProcessor β) : SharedProcessor β :=
  if processor.running then processor
  else { processor with running := true, threads := processor.threads ++ [.starting] }

def halt (processor : SharedProcessor β) : SharedProcessor β :=
  { processor with running := false }

/-! ### One thread at a time -/

/-- At most one thread is in `run`. -/
structure Alone (processor : SharedProcessor β) : Prop where
  length : processor.threads.length ≤ 1
  inside : BatchStage.idle ∉ processor.threads

/-- The processor with its only loop. -/
def view (processor : SharedProcessor β) : BatchEventProcessor β :=
  processor.thread (processor.threads.headD .idle)

variable {processor : SharedProcessor β} {opens : Int → Bool} {entry : Int → β}

theorem alone_initial : (initial : SharedProcessor β).Alone where
  length := Nat.zero_le 1
  inside := List.not_mem_nil

theorem Alone.inLoop_iff (alone : processor.Alone) :
    processor.view.stage ≠ .idle ↔ processor.threads ≠ [] := by
  show processor.threads.headD .idle ≠ .idle ↔ _
  have inside := alone.inside
  cases threads : processor.threads with
  | nil => exact iff_of_false (fun differs => differs rfl) (fun differs => differs rfl)
  | cons stage rest =>
      rw [threads] at inside
      exact iff_of_true (List.ne_of_not_mem_cons inside).symm (List.cons_ne_nil _ _)

theorem Alone.run (alone : processor.Alone)
    (free : processor.running = true ∨ processor.threads = []) :
    BatchEventProcessor.step opens entry processor.view .run = some processor.run.view ∧
      processor.run.Alone := by
  by_cases running : processor.running = true
  · rw [SharedProcessor.run, if_pos running]
    exact ⟨if_pos running, alone⟩
  · have nobody := free.resolve_left running
    rw [SharedProcessor.run, if_neg running, nobody]
    refine ⟨?_, Nat.le_refl 1, fun member => by cases List.mem_singleton.mp member⟩
    show (if processor.running = true then _ else if processor.threads.headD .idle = .idle then _
      else _) = _
    rw [if_neg running, nobody]
    rfl

theorem Alone.halt (alone : processor.Alone) :
    BatchEventProcessor.step opens entry processor.view .halt = some processor.halt.view ∧
      processor.halt.Alone :=
  ⟨rfl, alone.length, alone.inside⟩

/-- The thread that moves is the only one. -/
theorem Alone.thread (alone : processor.Alone) {index : Nat} {stage : BatchStage}
    (isThread : processor.threads[index]? = some stage) (after : BatchEventProcessor β) :
    processor.thread stage = processor.view ∧ (processor.moved index after).view = after ∧
      (processor.moved index after).Alone := by
  obtain ⟨below, isStage⟩ := List.getElem?_eq_some_iff.mp isThread
  have length := alone.length
  have isFirst : index = 0 := by omega
  have one : processor.threads.length = 1 := by omega
  obtain ⟨only, threads⟩ := List.length_eq_one_iff.mp one
  subst isFirst
  have isOnly : only = stage := by
    rw [threads] at isThread
    exact Option.some.inj isThread
  have afterThreads : (processor.moved 0 after).threads =
      if after.stage = .idle then [] else [after.stage] := by
    rw [moved, threads]
    rfl
  refine ⟨?_, ?_, ?_⟩
  · rw [view, threads, isOnly]
    rfl
  · rw [view, afterThreads]
    split
    case isTrue idle => rw [List.headD_nil, ← idle]; rfl
    case isFalse => rfl
  · constructor
    · rw [afterThreads]
      split
      · exact Nat.zero_le 1
      · exact le_rfl
    · rw [afterThreads]
      split
      case isTrue => exact List.not_mem_nil
      case isFalse inside => exact fun member => inside (List.mem_singleton.mp member).symm

end SharedProcessor

/-! ### The disruptor -/

namespace Rerun

structure State (β : Type*) where
  ring : Publishing.State β
  processors : Nat → SharedProcessor β
  shutdown : StartedDisruptor.Shutdown

variable {β : Type*} (disruptor : StartedDisruptor)

def initial (entries : Nat → β) : State β where
  ring := Publishing.initial disruptor.buffer entries
  processors := fun _ => .initial
  shutdown := .idle

/-- Calls of `run` and `halt`, what the threads do that are in `run`, and what the producer
and `shutdown` do. -/
inductive Action (β : Type*) where
  | run (id : Nat)
  | halt (id : Nat)
  | loop (id index : Nat) (action : BatchEventProcessor.Action)
  | other (action : StartedDisruptor.Action β)

def State.set (state : State β) (id : Nat) (processor : SharedProcessor β) : State β :=
  { state with processors := Function.update state.processors id processor }

/-- The disruptor with one loop for each processor. -/
def State.view (state : State β) : StartedDisruptor.State β where
  ring := state.ring
  processors := fun id => (state.processors id).view
  shutdown := state.shutdown

/-- The barriers, the producer and `shutdown` see the sequences and which processors run. -/
def step (state : State β) : Action β → Option (State β)
  | .run id =>
      if id < disruptor.count then some (state.set id (state.processors id).run) else none
  | .halt id =>
      if id < disruptor.count then some (state.set id (state.processors id).halt) else none
  | .loop id index action =>
      if id < disruptor.count then
        match (state.processors id).threads[index]? with
        | some stage =>
            (BatchEventProcessor.step (state.view.opens disruptor id)
              (state.ring.entry disruptor.buffer) ((state.processors id).thread stage) action).map
                fun after => state.set id ((state.processors id).moved index after)
        | none => none
      else none
  | .other (.process _ _) => none
  | .other action =>
      (StartedDisruptor.step disruptor state.view action).map fun after =>
        { state with ring := after.ring, shutdown := after.shutdown }

/-- A call of `run` that is not refused begins while no other thread is in it. -/
def RunsAlone (state : State β) : Action β → Prop
  | .run id => (state.processors id).running = true ∨ (state.processors id).threads = []
  | _ => True

instance (state : State β) : ∀ action, Decidable (RunsAlone state action)
  | .run _ => inferInstanceAs (Decidable (_ ∨ _))
  | .halt _ | .loop _ _ _ | .other _ => .isTrue trivial

def State.Alone (state : State β) : Prop :=
  ∀ id, (state.processors id).Alone

/-- The step in the disruptor with one loop for each processor. -/
def Action.view : Action β → StartedDisruptor.Action β
  | .run id => .process id .run
  | .halt id => .process id .halt
  | .loop id _ action => .process id action
  | .other action => action

variable {disruptor}

theorem alone_initial (entries : Nat → β) : (initial disruptor entries).Alone :=
  fun _ => SharedProcessor.alone_initial

theorem State.Alone.set {state : State β} (alone : state.Alone) {id : Nat}
    {processor : SharedProcessor β} (its : processor.Alone) : (state.set id processor).Alone := by
  intro other
  show (Function.update state.processors id processor other).Alone
  by_cases isThis : other = id
  · rw [isThis, Function.update_self]
    exact its
  · rw [Function.update_of_ne isThis]
    exact alone other

/-- A step of one processor is that of its only loop. -/
theorem process_view {state : State β} {id : Nat} (known : id < disruptor.count)
    {action : BatchEventProcessor.Action} {after : SharedProcessor β}
    (processed : BatchEventProcessor.step (state.view.opens disruptor id)
      (state.ring.entry disruptor.buffer) (state.processors id).view action = some after.view) :
    StartedDisruptor.step disruptor state.view (.process id action) =
      some (state.set id after).view := by
  have updated : (fun other => (Function.update state.processors id after other).view) =
      Function.update (fun other => (state.processors other).view) id after.view :=
    Function.comp_update SharedProcessor.view state.processors id after
  have isAfter : (state.set id after).view = { state.view with
      processors := Function.update state.view.processors id after.view } := by
    rw [State.view, State.set, updated]
    rfl
  rw [isAfter]
  exact (if_pos known).trans (congrArg (Option.map _) processed)

theorem step_view {before after : State β} {action : Action β} (alone : before.Alone)
    (runsAlone : RunsAlone before action) (stepped : step disruptor before action = some after) :
    StartedDisruptor.step disruptor before.view action.view = some after.view ∧ after.Alone := by
  cases action with
  | run id =>
      rcases Option.ite_none_right_eq_some.mp stepped with ⟨known, isAfter⟩
      cases isAfter
      obtain ⟨viewed, its⟩ := (alone id).run runsAlone
      exact ⟨process_view known viewed, alone.set its⟩
  | halt id =>
      rcases Option.ite_none_right_eq_some.mp stepped with ⟨known, isAfter⟩
      cases isAfter
      obtain ⟨viewed, its⟩ := (alone id).halt
      exact ⟨process_view known viewed, alone.set its⟩
  | loop id index action =>
      rcases Option.ite_none_right_eq_some.mp stepped with ⟨known, stepped⟩
      split at stepped
      case h_2 => cases stepped
      case h_1 stage isThread =>
        rcases Option.map_eq_some_iff.mp stepped with ⟨processor, processed, isAfter⟩
        cases isAfter
        obtain ⟨isView, viewed, its⟩ := (alone id).thread isThread processor
        rw [isView, ← viewed] at processed
        exact ⟨process_view known (by rw [processed, viewed]), alone.set its⟩
  | other action =>
      have own : ∀ id its, action ≠ .process id its := by
        intro id its isProcess
        rw [isProcess] at stepped
        cases stepped
      have mapped : (StartedDisruptor.step disruptor before.view action).map (fun after =>
          { before with ring := after.ring, shutdown := after.shutdown }) = some after := by
        cases action with
        | process id its => exact absurd rfl (own id its)
        | produce _ | shutdown | list | compare | leave => exact stepped
      rcases Option.map_eq_some_iff.mp mapped with ⟨above, steppedAbove, isAfter⟩
      cases isAfter
      have same := StartedDisruptor.processors_same own steppedAbove
      refine ⟨steppedAbove.trans ?_, alone⟩
      rcases above with ⟨ring, processors, shutdown⟩
      have isProcessors : processors = before.view.processors := same
      rw [isProcessors]
      rfl

theorem run_view {before after : State β} {actions : List (Action β)} (alone : before.Alone)
    (runsAlone : Machine.EveryStep (step disruptor) RunsAlone before actions)
    (ran : Machine.run (step disruptor) before actions = some after) :
    Machine.run (StartedDisruptor.step disruptor) before.view (actions.map Action.view) =
      some after.view ∧ after.Alone :=
  Machine.run_view State.Alone State.view Action.view step_view alone runsAlone ran

/-! ### Delivery -/

/-- As long as no thread begins to run a processor while another one is in its loop, a
processor's handler sees published events only, each as it stays from then on, and after
all that its barrier tracks are done with them. A processor is done with everything up to
its sequence, and what comes after that is kept in its slots, however far another
processor is. -/
theorem processors_deliver {entries : Nat → β} {first second : List (Action β)}
    {before after : State β}
    (alone : Machine.EveryStep (step disruptor) RunsAlone (initial disruptor entries) first)
    (ran : Machine.run (step disruptor) (initial disruptor entries) first = some before)
    (stillAlone : Machine.EveryStep (step disruptor) RunsAlone before second)
    (later : Machine.run (step disruptor) before second = some after) :
    ∀ id < disruptor.count,
      (before.processors id).calls <+: (after.processors id).calls ∧
      (∀ call ∈ (before.processors id).calls,
        0 ≤ call.sequence ∧ call.sequence ≤ before.ring.cursor ∧
        call.event = after.ring.content call.sequence ∧
        ∀ other ∈ disruptor.barrier id, call.sequence ∈ (before.processors other).handled) ∧
      (∀ sequence, 0 ≤ sequence → sequence ≤ (before.processors id).sequence →
        sequence ∈ (before.processors id).handled) ∧
      ∀ sequence, (after.processors id).sequence < sequence → sequence ≤ before.ring.cursor →
        after.ring.entry disruptor.buffer sequence = before.ring.content sequence := by
  obtain ⟨viewed, aloneBefore⟩ := run_view (alone_initial entries) alone ran
  obtain ⟨viewedLater, -⟩ := run_view aloneBefore stillAlone later
  exact StartedDisruptor.run_delivers viewed viewedLater

/-- Two events, of which the first processor handles one, is then halted and leaves the batch;
its second `run` begins after that. -/
def sampleRun : List (Action Nat) :=
  [.run 0, .loop 0 0 .notifyStart, .other (.produce (.call ⟨false, 2⟩)),
    .other (.produce (.write 0 7)), .other (.produce (.write 1 8)), .other (.produce .publish),
    .loop 0 0 (.waited 1), .loop 0 0 (.onEvent .returns), .run 0, .halt 0,
    .loop 0 0 (.onEvent .throwsAlert), .loop 0 0 .notifyShutdown, .run 0]

/-- The second one handles both, and the third one neither. -/
def sampleOther : List (Action Nat) :=
  [.run 1, .loop 1 0 .notifyStart, .loop 1 0 (.waited 1), .loop 1 0 (.onEvent .throws),
    .loop 1 0 .store, .loop 1 0 (.waited 1), .loop 1 0 (.onEvent .returns), .loop 1 0 .store,
    .run 2, .other (.produce (.call ⟨true, 1⟩))]

theorem processors_deliver_sample :
    ∃ before after,
      Machine.run (step StartedDisruptor.sampleDisruptor)
        (initial StartedDisruptor.sampleDisruptor fun _ => 0) (sampleRun ++ sampleOther) =
          some before ∧
      Machine.run (step StartedDisruptor.sampleDisruptor) before [.loop 0 0 .notifyStart] =
        some after ∧
      (before.processors 1).calls = [⟨0, 7, false⟩, ⟨1, 8, true⟩] ∧
      after.ring.entry StartedDisruptor.sampleDisruptor.buffer 1 = before.ring.content 1 := by
  have facts : (Machine.run (step StartedDisruptor.sampleDisruptor)
      (initial StartedDisruptor.sampleDisruptor fun _ => 0) (sampleRun ++ sampleOther)).map
        (fun state => ((state.processors 1).calls, state.ring.cursor,
          (Machine.run (step StartedDisruptor.sampleDisruptor) state
            [.loop 0 0 .notifyStart]).map fun later => (later.processors 0).sequence)) =
      some ([⟨0, 7, false⟩, ⟨1, 8, true⟩], 1, some (-1)) := by decide
  rcases Option.map_eq_some_iff.mp facts with ⟨before, ran, facts⟩
  rcases Option.map_eq_some_iff.mp (congrArg (fun fact => fact.2.2) facts) with
    ⟨after, later, behind⟩
  have cursor : before.ring.cursor = 1 := congrArg (fun fact => fact.2.1) facts
  have stillAlone : Machine.EveryStep (step StartedDisruptor.sampleDisruptor) RunsAlone before
      [.loop 0 0 .notifyStart] := ⟨trivial, fun _ _ => trivial⟩
  exact ⟨before, after, ran, later, congrArg Prod.fst facts,
    (processors_deliver (by decide) ran stillAlone later 0 (Nat.succ_pos 2)).2.2.2 1 (by omega)
      cursor.ge⟩

/-! ### Each event once -/

/-- Every processor is done with each event before the one it goes on with, once and in
order. -/
def Delivering (disruptor : StartedDisruptor) (state : State β) : Prop :=
  ∀ id < disruptor.count, (state.processors id).handled =
    sequences 0 ((state.processors id).view.next - 1)

/-- A thread leaves the loop, halted at an alert or by an exception that escapes, while the
processor is done with events that it has not stored. -/
def LeavesBatch (state : State β) : Action β → Prop
  | .loop id index action => action.leaves (state.processors id).running = true ∧
      ∃ stage, (state.processors id).threads[index]? = some stage ∧
        (state.processors id).sequence + 1 ≠ ((state.processors id).thread stage).next
  | _ => False

theorem leavesBatch_view_iff {before after : State β} {action : Action β} (alone : before.Alone)
    (stepped : step disruptor before action = some after) :
    StartedDisruptor.LeavesBatch before.view action.view ↔ LeavesBatch before action := by
  cases action with
  | run id | halt id => exact iff_of_false (fun leaves => by cases leaves.1) not_false
  | other action =>
      refine iff_of_false ?_ not_false
      cases action with
      | process id its => cases stepped
      | produce _ | shutdown | list | compare | leave => exact not_false
  | loop id index action =>
      rcases Option.ite_none_right_eq_some.mp stepped with ⟨-, stepped⟩
      split at stepped
      case h_2 => cases stepped
      case h_1 stage isThread =>
        rcases Option.map_eq_some_iff.mp stepped with ⟨processor, -, -⟩
        obtain ⟨isView, -, -⟩ := (alone id).thread isThread processor
        refine and_congr_right fun _ => ?_
        show (before.processors id).sequence + 1 ≠ (before.processors id).view.next ↔ _
        rw [← isView]
        constructor
        · exact fun unstored => ⟨stage, isThread, unstored⟩
        · intro unstored
          obtain ⟨other, isOther, unstored⟩ := unstored
          rw [Option.some.inj (isThread.symm.trans isOther)]
          exact unstored

/-- Over any number of halts and runs, each of which begins after the one before has left
`run`, and whatever the handlers throw, every processor is done with each event once and in
order exactly when none leaves its loop, halted or by an exception, while it is done with
events that it has not stored; such a one handles them again when it is run again. -/
theorem processors_deliver_once_iff {entries : Nat → β} {actions : List (Action β)}
    (possible : (Machine.run (step disruptor) (initial disruptor entries) actions).isSome)
    (alone : Machine.EveryStep (step disruptor) RunsAlone (initial disruptor entries) actions) :
    Machine.Throughout (step disruptor) (Delivering disruptor) (initial disruptor entries)
        actions ↔
      Machine.EveryStep (step disruptor) (fun state action => ¬ LeavesBatch state action)
        (initial disruptor entries) actions := by
  refine Machine.throughout_iff_everyStep
    (fun state => state.Alone ∧ StartedDisruptor.Inv disruptor state.view ∧
      StartedDisruptor.Delivering disruptor state.view) (fun all => all.2.2) ?_ ?_
    ⟨alone_initial entries, StartedDisruptor.inv_initial entries,
      StartedDisruptor.delivering_initial entries⟩ possible alone
  · intro before after action all runsAlone stays stepped
    obtain ⟨isAlone, inv, delivering⟩ := all
    obtain ⟨viewed, aloneAfter⟩ := step_view isAlone runsAlone stepped
    have above := (leavesBatch_view_iff isAlone stepped).not.mpr stays
    exact ⟨aloneAfter, (StartedDisruptor.step_follows inv viewed).inv,
      (StartedDisruptor.delivering_iff inv delivering viewed).mpr above⟩
  · intro before after action all runsAlone leaves stepped delivers
    obtain ⟨isAlone, inv, delivering⟩ := all
    obtain ⟨viewed, -⟩ := step_view isAlone runsAlone stepped
    exact leaves fun left => (StartedDisruptor.delivering_iff inv delivering viewed).mp delivers
      ((leavesBatch_view_iff isAlone stepped).mpr left)

theorem processors_deliver_once_iff_sample :
    Machine.Throughout (step StartedDisruptor.sampleDisruptor)
        (Delivering StartedDisruptor.sampleDisruptor)
        (initial StartedDisruptor.sampleDisruptor fun _ => 0) sampleRun ↔
      Machine.EveryStep (step StartedDisruptor.sampleDisruptor)
        (fun state action => ¬ LeavesBatch state action)
        (initial StartedDisruptor.sampleDisruptor fun _ => 0) sampleRun :=
  processors_deliver_once_iff (by decide) (by decide)

/-! ### No event is left waiting -/

/-- What the threads in `run` do without a timeout, an alert, a halt or an exception, and
when their waits bring something new. -/
def Action.Quiet : Action β → Prop
  | .loop id _ action => (StartedDisruptor.Action.process id action : StartedDisruptor.Action β).Quiet
  | _ => False

theorem runsAlone_of_quiet {action : Action β} (quiet : action.Quiet) (state : State β) :
    RunsAlone state action := by
  cases action with
  | loop _ _ _ => trivial
  | run _ | halt _ | other _ => exact quiet.elim

theorem quiet_view {action : Action β} (quiet : action.Quiet) : action.view.Quiet := by
  cases action with
  | loop _ _ _ => exact quiet
  | run _ | halt _ | other _ => exact quiet.elim

/-- When the threads can take no such step, the only loop of a processor rests. -/
theorem rests_of_stuck {state : State β} (alone : state.Alone)
    (stuck : ∀ action : Action β, action.Quiet → step disruptor state action = none) {id : Nat}
    (known : id < disruptor.count) :
    StartedDisruptor.Rests disruptor state.view id (state.processors id).view.stage := by
  cases threads : (state.processors id).threads with
  | nil =>
      have idle : (state.processors id).view.stage = .idle := by
        by_contra inLoop
        exact (alone id).inLoop_iff.mp inLoop threads
      rw [idle]
      trivial
  | cons stage rest =>
      have isThread : (state.processors id).threads[0]? = some stage := by
        rw [threads]
        rfl
      refine StartedDisruptor.rests_of_stuck fun action quiet => ?_
      have refused := stuck (.loop id 0 action) quiet
      simp only [step, if_pos known, isThread] at refused
      have isView := ((alone id).thread isThread (state.processors id).view).1
      rw [isView] at refused
      exact Option.map_eq_none_iff.mp refused

theorem stuck_of_rests {state : State β} (alone : state.Alone)
    (inv : StartedDisruptor.Inv disruptor state.view)
    (rests : ∀ id < disruptor.count,
      StartedDisruptor.Rests disruptor state.view id (state.processors id).view.stage)
    {action : Action β} (quiet : action.Quiet) : step disruptor state action = none := by
  cases action with
  | run _ | halt _ | other _ => exact quiet.elim
  | loop id index action =>
      simp only [step]
      split
      case isFalse => rfl
      case isTrue known =>
        split
        case h_2 => rfl
        case h_1 stage isThread =>
          rw [((alone id).thread isThread (state.processors id).view).1]
          exact Option.map_eq_none_iff.mpr (inv.stuck_of_rests known (rests id known) quiet)

/-- All processors run and come to the event that is published. -/
def sampleSettling : List (Action Nat) :=
  [.run 1, .run 2, .loop 0 0 .notifyStart, .loop 1 0 .notifyStart, .loop 2 0 .notifyStart,
    .loop 0 0 (.waited 1), .loop 0 0 (.onEvent .returns), .loop 0 0 (.onEvent .returns),
    .loop 0 0 .store, .loop 1 0 (.waited 1), .loop 1 0 (.onEvent .returns),
    .loop 1 0 (.onEvent .returns), .loop 1 0 .store, .loop 2 0 (.waited 1),
    .loop 2 0 (.onEvent .returns), .loop 2 0 (.onEvent .returns), .loop 2 0 .store]

end Rerun

end Dift.Disruptor
