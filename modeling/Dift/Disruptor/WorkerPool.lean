import Dift.Disruptor.Publishing
import Dift.Foundation.Handout

/-!
Owns the worker pool: one producer that publishes to the ring buffer, and any number
of `WorkProcessor`s that take the sequences from one shared work sequence. The pool is
started once by `WorkerPool::start`, halted at any time, and drained; what a second
`start` does to the sequences is not followed, and the handlers do not use their
`EventReleaser`. Every access to shared state is a step of its own, so that the runs are
all interleavings.
-/

namespace Dift.Disruptor

open Dift.Foundation

/-- A pool over a ring buffer whose size is a power of two. -/
structure WorkerPool where
  indexShift : Nat
  workerCount : Nat
  small : indexShift ≤ 30

namespace WorkerPool

/-- The ring buffer, gated on the workers' sequences and the work sequence. -/
def buffer (pool : WorkerPool) : Publishing.Buffer where
  indexShift := pool.indexShift
  gatingCount := pool.workerCount + 1
  small := pool.small

/-- Where a processor is: not yet handed to the executor, handed to it, at the top of
the loop that claims, about to store the sequence before the next one in its own,
about to swap the work sequence, with a claimed sequence in hand, out of its loop
with a claimed sequence that it gave up, or gone before its loop. -/
inductive Stage where
  | idle
  | ready
  | claiming
  | storing (nextSequence : Int)
  | swapping (nextSequence : Int)
  | holding (nextSequence : Int)
  | stopped (nextSequence : Int)
  | left
deriving DecidableEq, Repr

/-- The sequence that is claimed and not handled. -/
def Stage.claim : Stage → List Int
  | .holding nextSequence => [nextSequence]
  | .stopped nextSequence => [nextSequence]
  | _ => []

def Stage.InLoop : Stage → Prop
  | .claiming | .storing _ | .swapping _ | .holding _ => True
  | .idle | .ready | .stopped _ | .left => False

end WorkerPool

/-- A processor. The sequences that its handler was called for and is done with are
recorded, with the events. -/
structure WorkProcessor (β : Type*) where
  running : Bool
  sequence : Int
  cachedAvailableSequence : Int
  stage : WorkerPool.Stage
  handled : List (Int × β)

namespace WorkProcessor

variable {β : Type*}

def initial : WorkProcessor β where
  running := false
  sequence := -1
  cachedAvailableSequence := -2 ^ 63
  stage := .idle
  handled := []

/-- All sequences that the processor ever claimed. -/
def claims (worker : WorkProcessor β) : List Int :=
  worker.handled.map Prod.fst ++ worker.stage.claim

end WorkProcessor

namespace WorkerPool

/-- Where `start` is: not called, about to store the cursor it has read in the work
sequence, or about to launch a processor. -/
inductive Starter where
  | stopped
  | working (cursor : Int)
  | launching (cursor : Int) (next : Nat)
deriving DecidableEq, Repr

/-- Where `drainAndHalt` is: not called, comparing the cursor with the minimum of the
worker sequences, or past its loop. The cursor may be read before or after any of the
sequences. -/
inductive Drain where
  | idle
  | comparing (cursor : Option Int) (scan : Scan Nat Int)
  | drained (cursor : Int)
deriving DecidableEq, Repr

/-- The shared state and where everyone is. The last field records the cursor that
`start` stored in the work sequence. -/
structure State (β : Type*) where
  ring : Publishing.State β
  workSequence : Int
  workers : Nat → WorkProcessor β
  starter : Starter
  drain : Drain
  base : Int

variable {β : Type*}

def initial (pool : WorkerPool) (entries : Nat → β) : State β where
  ring := Publishing.initial pool.buffer entries
  workSequence := -1
  workers := fun _ => .initial
  starter := .stopped
  drain := .idle
  base := -1

/-! ### Steps -/

/-- What the producer, `start`, `drainAndHalt`, the processors and their executor do,
and calls of `halt`. A wait of a processor gives it an available sequence, which may be
too low, times out, or is alerted; its handler throws a timeout or alert exception with
the same effect, and any other exception that its exception handler rethrows leaves
`run`. -/
inductive Action (β : Type*) where
  | produce (action : Publishing.Action β)
  | start
  | setWorkSequence
  | launch
  | drainAndHalt
  | drainCursor
  | drainRead (id : Nat)
  | drainEnd
  | run (id : Nat)
  | readWork (id : Nat)
  | storeSequence (id : Nat)
  | compareAndSet (id : Nat)
  | handle (id : Nat)
  | waited (id : Nat) (available : Int)
  | woken (id : Nat) (available : Int)
  | timeout (id : Nat)
  | alerted (id : Nat)
  | escapes (id : Nat)
  | halt (id : Nat)

variable (pool : WorkerPool)

/-- `getWorkerSequences`: those of the processors and the work sequence. -/
def State.gating (state : State β) (id : Nat) : Int :=
  if id < pool.workerCount then (state.workers id).sequence else state.workSequence

def State.setWorker (state : State β) (id : Nat) (worker : WorkProcessor β) : State β :=
  { state with workers := Function.update state.workers id worker }

def setWorkSequence (state : State β) : Option (State β) :=
  match state.starter with
  | .working cursor =>
      some { state with
        workSequence := cursor, base := cursor, starter := .launching cursor 0 }
  | _ => none

/-- A processor's sequence is set, and the processor handed to the executor. -/
def launch (state : State β) : Option (State β) :=
  match state.starter with
  | .launching cursor next =>
      if next < pool.workerCount then
        some { state.setWorker next
            { state.workers next with sequence := cursor, stage := .ready } with
          starter := .launching cursor (next + 1) }
      else none
  | _ => none

/-- The sequences that are still to be read, and the largest number. -/
def wholeScan : Scan Nat Int := ⟨List.range (pool.workerCount + 1), 2 ^ 63 - 1⟩

/-- The loop of `drainAndHalt` goes on while the cursor is above the minimum. -/
def drainEnd (state : State β) : Option (State β) :=
  match state.drain with
  | .comparing (some cursor) ⟨[], minimum⟩ =>
      some { state with
        drain := if cursor > minimum then .comparing none (wholeScan pool) else .drained cursor }
  | _ => none

/-- A step of a processor's thread, or of one that halts it. -/
def work (cursor workSequence : Int) (entry : Int → β) (worker : WorkProcessor β) :
    Action β → Option (WorkProcessor β × Int)
  | .run _ =>
      if worker.stage = .ready then
        some ({ worker with
          running := true, cachedAvailableSequence := -2 ^ 63, stage := .claiming }, workSequence)
      else none
  | .readWork _ =>
      if worker.stage = .claiming then
        some ({ worker with stage := .storing (workSequence + 1) }, workSequence)
      else none
  | .storeSequence _ =>
      match worker.stage with
      | .storing nextSequence =>
          some ({ worker with sequence := nextSequence - 1, stage := .swapping nextSequence },
            workSequence)
      | _ => none
  | .compareAndSet _ =>
      match worker.stage with
      | .swapping nextSequence =>
          if workSequence = nextSequence - 1 then
            some ({ worker with stage := .holding nextSequence }, nextSequence)
          else some ({ worker with stage := .claiming }, workSequence)
      | _ => none
  | .handle _ =>
      match worker.stage with
      | .holding nextSequence =>
          -- An exception that the exception handler takes counts as handling.
          if nextSequence ≤ worker.cachedAvailableSequence then
            some ({ worker with
              stage := .claiming
              handled := worker.handled ++ [(nextSequence, entry nextSequence)] }, workSequence)
          else none
      | _ => none
  | .waited _ available =>
      match worker.stage with
      | .holding nextSequence =>
          if worker.cachedAvailableSequence < nextSequence ∧ nextSequence ≤ available ∧
              available ≤ cursor then
            some ({ worker with cachedAvailableSequence := available }, workSequence)
          else none
      | _ => none
  | .woken _ available =>
      match worker.stage with
      | .holding nextSequence =>
          if worker.cachedAvailableSequence < nextSequence ∧ available < nextSequence ∧
              available ≤ cursor then
            some ({ worker with cachedAvailableSequence := available }, workSequence)
          else none
      | _ => none
  | .timeout _ =>
      match worker.stage with
      | .holding _ => some (worker, workSequence)
      | _ => none
  | .alerted _ =>
      match worker.stage with
      | .holding nextSequence =>
          -- An alert that is not a halt is ignored.
          if worker.running then some (worker, workSequence)
          else some ({ worker with stage := .stopped nextSequence }, workSequence)
      | _ => none
  | .escapes _ =>
      match worker.stage with
      -- `notifyStart` throws.
      | .ready => some ({ worker with running := true, stage := .left }, workSequence)
      | .holding nextSequence =>
          some ({ worker with stage := .stopped nextSequence }, workSequence)
      | _ => none
  | .halt _ => some ({ worker with running := false }, workSequence)
  | _ => none

/-- The processor that an action is about. -/
def Action.worker : Action β → Option Nat
  | .run id | .readWork id | .storeSequence id | .compareAndSet id | .handle id
  | .waited id _ | .woken id _ | .timeout id | .alerted id | .escapes id | .halt id => some id
  | _ => none

def step (state : State β) (action : Action β) : Option (State β) :=
  match action.worker with
  | some id =>
      if id < pool.workerCount then
        (work state.ring.cursor state.workSequence (state.ring.entry pool.buffer)
          (state.workers id) action).map
            fun after => { state.setWorker id after.1 with workSequence := after.2 }
      else none
  | none =>
      match action with
      | .produce action =>
          (Publishing.step pool.buffer (state.gating pool) state.ring action).map
            fun ring => { state with ring := ring }
      | .start =>
          if state.starter = .stopped then
            some { state with starter := .working state.ring.cursor }
          else none
      | .setWorkSequence => setWorkSequence state
      | .launch => launch pool state
      | .drainAndHalt =>
          if state.drain = .idle then
            some { state with drain := .comparing none (wholeScan pool) }
          else none
      | .drainCursor =>
          match state.drain with
          | .comparing none scan =>
              some { state with drain := .comparing (some state.ring.cursor) scan }
          | _ => none
      | .drainRead id =>
          match state.drain with
          | .comparing cursor scan =>
              (scan.read id (state.gating pool id)).map fun after =>
                { state with drain := .comparing cursor after }
          | _ => none
      | .drainEnd => drainEnd pool state
      | _ => none

/-! ### One processor -/

/-- What a stage says about the sequence of its processor and the work sequence. -/
def Stage.Agrees (workSequence sequence : Int) : Stage → Prop
  | .idle | .ready | .claiming | .left => True
  | .storing nextSequence => sequence ≤ nextSequence - 1 ∧ nextSequence - 1 ≤ workSequence
  | .swapping nextSequence => sequence = nextSequence - 1 ∧ nextSequence - 1 ≤ workSequence
  | .holding nextSequence | .stopped nextSequence =>
      sequence = nextSequence - 1 ∧ nextSequence ≤ workSequence

theorem Stage.Agrees.mono {workSequence later sequence : Int} {stage : Stage}
    (agrees : stage.Agrees workSequence sequence) (grown : workSequence ≤ later) :
    stage.Agrees later sequence := by
  cases stage with
  | idle | ready | claiming | left => trivial
  | storing _ | swapping _ | holding _ | stopped _ => exact ⟨agrees.1, agrees.2.trans grown⟩

end WorkerPool

/-- A processor is not ahead of the work sequence, and has handled what was published. -/
structure WorkProcessor.Sound {β : Type*} (cursor workSequence : Int) (content : Int → β)
    (worker : WorkProcessor β) : Prop where
  cached : worker.cachedAvailableSequence ≤ cursor
  sequence : worker.sequence ≤ workSequence
  stage : worker.stage.Agrees workSequence worker.sequence
  handled : ∀ entry ∈ worker.handled, entry.1 ≤ cursor ∧ entry.2 = content entry.1

namespace WorkProcessor

variable {β : Type*} {cursor workSequence : Int} {content : Int → β} {worker : WorkProcessor β}

theorem sound_initial (published : -1 ≤ cursor) (worked : -1 ≤ workSequence) :
    (initial : WorkProcessor β).Sound cursor workSequence content where
  cached := by
    show -2 ^ 63 ≤ cursor
    omega
  sequence := worked
  stage := trivial
  handled := fun _ member => absurd member List.not_mem_nil

theorem Sound.mono {later laterWork : Int} {newer : Int → β}
    (sound : worker.Sound cursor workSequence content) (published : cursor ≤ later)
    (worked : workSequence ≤ laterWork)
    (same : ∀ sequence, sequence ≤ cursor → newer sequence = content sequence) :
    worker.Sound later laterWork newer where
  cached := sound.cached.trans published
  sequence := sound.sequence.trans worked
  stage := sound.stage.mono worked
  handled := by
    intro entry member
    have known := sound.handled entry member
    exact ⟨known.1.trans published, known.2.trans (same entry.1 known.1).symm⟩

/-- A step that handles nothing. -/
theorem Sound.stay (sound : worker.Sound cursor workSequence content) {after : WorkProcessor β}
    (cached : after.cachedAvailableSequence ≤ cursor) (sequence : after.sequence ≤ workSequence)
    (stage : after.stage.Agrees workSequence after.sequence)
    (handled : after.handled = worker.handled) :
    after.Sound cursor workSequence content where
  cached := cached
  sequence := sequence
  stage := stage
  handled := by
    rw [handled]
    exact sound.handled

/-- What a step of a processor does: its sequence does not go back, it claims nothing or the
sequence after the work sequence, and keeps what it handled. -/
structure Moves (workSequence : Int) (before : WorkProcessor β)
    (after : WorkProcessor β × Int) : Prop where
  forward : before.sequence ≤ after.1.sequence
  claims : after.2 = workSequence ∧ after.1.claims = before.claims ∨
    after.2 = workSequence + 1 ∧ after.1.claims = before.claims ++ [workSequence + 1]
  handled : before.handled <+: after.1.handled
  idle : before.stage = .idle → after.1 = { before with running := after.1.running }

/-- A claim that is not handled is the sequence after the processor's own. -/
theorem Sound.claimed (sound : worker.Sound cursor workSequence content) {sequence : Int}
    (claimed : sequence ∈ worker.stage.claim) : worker.sequence = sequence - 1 := by
  have agrees := sound.stage
  cases stage : worker.stage with
  | idle | ready | claiming | storing _ | swapping _ | left =>
      rw [stage] at claimed
      cases claimed
  | holding nextSequence | stopped nextSequence =>
      rw [stage] at claimed agrees
      rw [List.mem_singleton.mp claimed]
      exact agrees.1

/-- What is not published is not handled. -/
theorem Sound.unpublished (sound : worker.Sound cursor workSequence content) {sequence : Int}
    (claimed : sequence ∈ worker.claims) (ahead : cursor < sequence) :
    sequence ∈ worker.stage.claim := by
  rcases List.mem_append.mp claimed with handled | unhandled
  · rcases List.mem_map.mp handled with ⟨entry, member, rfl⟩
    exact absurd (sound.handled entry member).1 (not_le.mpr ahead)
  · exact unhandled

theorem claims_of_stage {before after : WorkProcessor β} (handled : after.handled = before.handled)
    (stage : after.stage.claim = before.stage.claim) : after.claims = before.claims := by
  rw [claims, claims, handled, stage]

/-- Out of its loop, a processor keeps the claim that it gave up. -/
theorem Sound.stops (sound : worker.Sound cursor workSequence content) {nextSequence : Int}
    (holding : worker.stage = .holding nextSequence) :
    Sound cursor workSequence content { worker with stage := .stopped nextSequence } ∧
      worker.Moves workSequence ({ worker with stage := .stopped nextSequence }, workSequence) := by
  have agrees := sound.stage
  rw [holding] at agrees
  have sameClaims : claims { worker with stage := .stopped nextSequence } = worker.claims :=
    claims_of_stage rfl (by rw [holding]; rfl)
  have notIdle : worker.stage ≠ .idle := by
    rw [holding]
    nofun
  exact ⟨sound.stay sound.cached sound.sequence agrees rfl, le_rfl, .inl ⟨rfl, sameClaims⟩,
    List.prefix_rfl, fun idle => absurd idle notIdle⟩

end WorkProcessor

namespace WorkerPool

variable {β : Type*} {cursor workSequence : Int} {content entry : Int → β}
  {worker : WorkProcessor β}

/-- A step of a processor keeps what is known of it, when the slots of the published
sequences that are not behind its own hold their content. -/
theorem work_sound {action : Action β} {after : WorkProcessor β × Int}
    (sound : worker.Sound cursor workSequence content)
    (slots : ∀ sequence, worker.sequence < sequence → sequence ≤ cursor →
      entry sequence = content sequence)
    (low : -2 ^ 63 ≤ cursor)
    (stepped : work cursor workSequence entry worker action = some after) :
    after.1.Sound cursor after.2 content ∧ worker.Moves workSequence after := by
  cases action with
  | run id =>
      rcases Option.ite_none_right_eq_some.mp stepped with ⟨ready, isAfter⟩
      cases isAfter
      have claims : WorkProcessor.claims { worker with
          running := true, cachedAvailableSequence := -2 ^ 63, stage := .claiming } =
          worker.claims := WorkProcessor.claims_of_stage rfl (by rw [ready]; rfl)
      exact ⟨sound.stay low sound.sequence trivial rfl, le_rfl, .inl ⟨rfl, claims⟩,
        List.prefix_rfl, fun idle => by rw [ready] at idle; cases idle⟩
  | readWork id =>
      rcases Option.ite_none_right_eq_some.mp stepped with ⟨claiming, isAfter⟩
      cases isAfter
      have claims : WorkProcessor.claims { worker with stage := .storing (workSequence + 1) } =
          worker.claims := WorkProcessor.claims_of_stage rfl (by rw [claiming]; rfl)
      have agrees : worker.sequence ≤ workSequence + 1 - 1 ∧ workSequence + 1 - 1 ≤ workSequence := by
        have sequence := sound.sequence
        omega
      exact ⟨sound.stay sound.cached sound.sequence agrees rfl, le_rfl,
        .inl ⟨rfl, claims⟩, List.prefix_rfl, fun idle => by rw [claiming] at idle; cases idle⟩
  | storeSequence id =>
      simp only [work] at stepped
      split at stepped
      case h_2 => cases stepped
      case h_1 nextSequence storing =>
        cases stepped
        have agrees := sound.stage
        rw [storing] at agrees
        have claims : WorkProcessor.claims { worker with
            sequence := nextSequence - 1, stage := .swapping nextSequence } = worker.claims :=
          WorkProcessor.claims_of_stage rfl (by rw [storing]; rfl)
        exact ⟨⟨sound.cached, agrees.2, ⟨rfl, agrees.2⟩, sound.handled⟩, agrees.1,
          .inl ⟨rfl, claims⟩, List.prefix_rfl, fun idle => by rw [storing] at idle; cases idle⟩
  | compareAndSet id =>
      simp only [work] at stepped
      split at stepped
      case h_2 => cases stepped
      case h_1 nextSequence swapping =>
        have agrees := sound.stage
        rw [swapping] at agrees
        have notIdle : worker.stage ≠ .idle := by
          rw [swapping]
          nofun
        split at stepped
        case isTrue isNext =>
          cases stepped
          have next : nextSequence = workSequence + 1 := by omega
          have claims : WorkProcessor.claims { worker with stage := .holding nextSequence } =
              worker.claims ++ [workSequence + 1] := by
            rw [WorkProcessor.claims, WorkProcessor.claims, swapping, next]
            exact congrArg (· ++ [workSequence + 1]) (List.append_nil _).symm
          have behind : worker.sequence ≤ nextSequence := by
            have sequence := sound.sequence
            omega
          exact ⟨⟨sound.cached, behind, ⟨agrees.1, le_rfl⟩, sound.handled⟩, le_rfl,
            .inr ⟨next, claims⟩, List.prefix_rfl, fun idle => absurd idle notIdle⟩
        case isFalse =>
          cases stepped
          have claims : WorkProcessor.claims { worker with stage := .claiming } =
              worker.claims := WorkProcessor.claims_of_stage rfl (by rw [swapping]; rfl)
          exact ⟨sound.stay sound.cached sound.sequence trivial rfl, le_rfl,
            .inl ⟨rfl, claims⟩, List.prefix_rfl, fun idle => absurd idle notIdle⟩
  | handle id =>
      simp only [work] at stepped
      split at stepped
      case h_2 => cases stepped
      case h_1 nextSequence holding =>
        rcases Option.ite_none_right_eq_some.mp stepped with ⟨available, isAfter⟩
        cases isAfter
        have agrees := sound.stage
        rw [holding] at agrees
        have published := available.trans sound.cached
        have claims : WorkProcessor.claims { worker with
            stage := .claiming
            handled := worker.handled ++ [(nextSequence, entry nextSequence)] } =
            worker.claims := by
          rw [WorkProcessor.claims, WorkProcessor.claims, holding, List.map_append]
          exact List.append_nil _
        have handled : ∀ added ∈ worker.handled ++ [(nextSequence, entry nextSequence)],
            added.1 ≤ cursor ∧ added.2 = content added.1 := by
          intro added member
          rcases List.mem_append.mp member with earlier | isNew
          · exact sound.handled added earlier
          · rw [List.mem_singleton.mp isNew]
            have ahead := agrees.1
            exact ⟨published, slots nextSequence (by omega) published⟩
        exact ⟨⟨sound.cached, sound.sequence, trivial, handled⟩, le_rfl, .inl ⟨rfl, claims⟩,
          List.prefix_append _ _, fun idle => by rw [holding] at idle; cases idle⟩
  | waited id available =>
      simp only [work] at stepped
      split at stepped
      case h_2 => cases stepped
      case h_1 nextSequence holding =>
        rcases Option.ite_none_right_eq_some.mp stepped with ⟨waits, isAfter⟩
        cases isAfter
        exact ⟨sound.stay waits.2.2 sound.sequence sound.stage rfl, le_rfl, .inl ⟨rfl, rfl⟩,
          List.prefix_rfl, fun idle => by rw [holding] at idle; cases idle⟩
  | woken id available =>
      simp only [work] at stepped
      split at stepped
      case h_2 => cases stepped
      case h_1 nextSequence holding =>
        rcases Option.ite_none_right_eq_some.mp stepped with ⟨waits, isAfter⟩
        cases isAfter
        exact ⟨sound.stay waits.2.2 sound.sequence sound.stage rfl, le_rfl, .inl ⟨rfl, rfl⟩,
          List.prefix_rfl, fun idle => by rw [holding] at idle; cases idle⟩
  | timeout id =>
      simp only [work] at stepped
      split at stepped
      case h_2 => cases stepped
      case h_1 nextSequence holding =>
        cases stepped
        exact ⟨sound, le_rfl, .inl ⟨rfl, rfl⟩, List.prefix_rfl, fun _ => rfl⟩
  | alerted id =>
      simp only [work] at stepped
      split at stepped
      case h_2 => cases stepped
      case h_1 nextSequence holding =>
        split at stepped
        case isTrue =>
          cases stepped
          exact ⟨sound, le_rfl, .inl ⟨rfl, rfl⟩, List.prefix_rfl, fun _ => rfl⟩
        case isFalse =>
          cases stepped
          exact sound.stops holding
  | escapes id =>
      simp only [work] at stepped
      split at stepped
      case h_3 => cases stepped
      case h_1 ready =>
        cases stepped
        have claims : WorkProcessor.claims { worker with running := true, stage := .left } =
            worker.claims := WorkProcessor.claims_of_stage rfl (by rw [ready]; rfl)
        exact ⟨sound.stay sound.cached sound.sequence trivial rfl, le_rfl,
          .inl ⟨rfl, claims⟩, List.prefix_rfl, fun idle => by rw [ready] at idle; cases idle⟩
      case h_2 nextSequence holding =>
        cases stepped
        exact sound.stops holding
  | halt id =>
      cases stepped
      exact ⟨sound.stay sound.cached sound.sequence sound.stage rfl, le_rfl, .inl ⟨rfl, rfl⟩,
        List.prefix_rfl, fun _ => rfl⟩
  | _ => cases stepped

/-! ### The pool -/

/-- A processor that was not handed to the executor. -/
structure Fresh (worker : WorkProcessor β) : Prop where
  stage : worker.stage = .idle
  sequence : worker.sequence = -1
  handled : worker.handled = []

theorem Fresh.claims (fresh : Fresh worker) : worker.claims = [] := by
  rw [WorkProcessor.claims, fresh.handled, fresh.stage]
  rfl

theorem Fresh.moves {after : WorkProcessor β × Int} (fresh : Fresh worker)
    (moves : worker.Moves workSequence after) : Fresh after.1 ∧ after.2 = workSequence := by
  have isAfter := moves.idle fresh.stage
  have stays : Fresh after.1 := by
    rw [isAfter]
    exact ⟨fresh.stage, fresh.sequence, fresh.handled⟩
  refine ⟨stays, ?_⟩
  rcases moves.claims with same | claims
  · exact same.1
  · rw [stays.claims, fresh.claims] at claims
    cases claims.2

/-- Up to where the processors are not yet handed to the executor. -/
def Starter.Agrees (workerCount : Nat) (state : State β) : Starter → Prop
  | .stopped => state.base = -1 ∧ state.workSequence = -1 ∧
      ∀ id < workerCount, Fresh (state.workers id)
  | .working cursor => -1 ≤ cursor ∧ cursor ≤ state.ring.cursor ∧
      state.base = -1 ∧ state.workSequence = -1 ∧ ∀ id < workerCount, Fresh (state.workers id)
  | .launching cursor next => cursor = state.base ∧
      ∀ id < workerCount, next ≤ id → Fresh (state.workers id)

/-- The minimum is below the worker sequences that were read, and in the end the cursor
that was read is. -/
def Drain.Agrees (gatingCount : Nat) (gating : Nat → Int) : Drain → Prop
  | .idle => True
  | .comparing _ scan => scan.Below (· < gatingCount) gating
  | .drained cursor => ∀ id < gatingCount, cursor ≤ gating id

theorem Drain.Agrees.mono {gatingCount : Nat} {gating later : Nat → Int} {drain : Drain}
    (agrees : drain.Agrees gatingCount gating)
    (grown : ∀ id < gatingCount, gating id ≤ later id) : drain.Agrees gatingCount later := by
  cases drain with
  | idle => trivial
  | comparing cursor scan => exact Scan.Below.mono agrees grown
  | drained cursor => exact fun id known => (agrees id known).trans (grown id known)

def State.claims (state : State β) (id : Nat) : List Int :=
  (state.workers id).claims

structure Inv (pool : WorkerPool) (state : State β) : Prop where
  ring : Publishing.Inv pool.buffer (state.gating pool) state.ring
  atLeast : -1 ≤ state.base
  published : state.base ≤ state.ring.cursor
  worked : state.base ≤ state.workSequence
  starter : state.starter.Agrees pool.workerCount state
  workers : ∀ id < pool.workerCount,
    (state.workers id).Sound state.ring.cursor state.workSequence state.ring.content
  handout : Handout (· < pool.workerCount) state.base state.workSequence state.claims
  drain : state.drain.Agrees (pool.workerCount + 1) (state.gating pool)

variable {pool : WorkerPool}

theorem initial_gating (entries : Nat → β) (id : Nat) :
    (initial pool entries).gating pool id = -1 :=
  ite_self _

theorem inv_initial (entries : Nat → β) : Inv pool (initial pool entries) where
  ring := Publishing.inv_initial entries fun id _ => (initial_gating entries id).ge
  atLeast := le_rfl
  published := le_rfl
  worked := le_rfl
  starter := ⟨rfl, rfl, fun _ _ => ⟨rfl, rfl, rfl⟩⟩
  workers := fun _ _ => WorkProcessor.sound_initial le_rfl le_rfl
  handout := Handout.start fun _ _ => rfl
  drain := trivial

/-- The sequences that are not behind a processor's own are in their slots. -/
theorem Inv.slot {state : State β} (inv : Inv pool state) {id : Nat}
    (known : id < pool.workerCount) {sequence : Int}
    (ahead : (state.workers id).sequence < sequence) (published : sequence ≤ state.ring.cursor) :
    state.ring.entry pool.buffer sequence = state.ring.content sequence := by
  refine inv.ring.slot (known.trans (Nat.lt_succ_self _)) ?_ published
  rw [State.gating, if_pos known]
  exact ahead

/-- Some worker sequence is not ahead of the cursor: the work sequence, or that of the
processor that waits for the first sequence that is not published. -/
theorem Inv.exists_gating_le {state : State β} (inv : Inv pool state) :
    ∃ id < pool.workerCount + 1, state.gating pool id ≤ state.ring.cursor := by
  by_cases ahead : state.ring.cursor < state.workSequence
  · have published := inv.published
    obtain ⟨id, known, claimed⟩ := (inv.handout.claimed (state.ring.cursor + 1)).mpr
      ⟨by omega, by omega⟩
    have sound := inv.workers id known
    have own := sound.claimed (sound.unpublished claimed (by omega))
    refine ⟨id, known.trans (Nat.lt_succ_self _), ?_⟩
    rw [State.gating, if_pos known]
    omega
  · refine ⟨pool.workerCount, Nat.lt_succ_self _, ?_⟩
    rw [State.gating, if_neg (lt_irrefl _)]
    exact not_lt.mp ahead

/-- What every step keeps, besides the invariant: what is published stays as it is, and
what is handled stays handled. -/
structure Follows (pool : WorkerPool) (before after : State β) : Prop where
  inv : Inv pool after
  published : before.ring.cursor ≤ after.ring.cursor
  content : ∀ sequence, sequence ≤ before.ring.cursor →
    after.ring.content sequence = before.ring.content sequence
  handled : ∀ id, (before.workers id).handled <+: (after.workers id).handled

theorem Follows.trans {first second third : State β} (one : Follows pool first second)
    (two : Follows pool second third) : Follows pool first third where
  inv := two.inv
  published := one.published.trans two.published
  content := fun sequence shown =>
    (two.content sequence (shown.trans one.published)).trans (one.content sequence shown)
  handled := fun id => (one.handled id).trans (two.handled id)

/-- What the producer does leaves the processors alone. -/
theorem Inv.produced {state : State β} (inv : Inv pool state) {ring : Publishing.State β}
    (follows : Publishing.Follows pool.buffer (state.gating pool) state.ring ring) :
    Follows pool state { state with ring := ring } where
  inv :=
    { ring := follows.inv
      atLeast := inv.atLeast
      published := inv.published.trans follows.published
      worked := inv.worked
      starter := by
        have starter := inv.starter
        cases is : state.starter with
        | stopped | launching _ _ =>
            rw [is] at starter
            exact starter
        | working cursor =>
            rw [is] at starter
            exact ⟨starter.1, starter.2.1.trans follows.published, starter.2.2⟩
      workers := fun id known =>
        (inv.workers id known).mono follows.published le_rfl follows.content
      handout := inv.handout
      drain := inv.drain }
  published := follows.published
  content := follows.content
  handled := fun _ => List.prefix_rfl

/-- What `start` and the processors do leaves the producer alone, when no worker sequence
goes back. -/
theorem Inv.moved {state : State β} (inv : Inv pool state) {workers : Nat → WorkProcessor β}
    {workSequence base : Int} {starter : Starter}
    (based : -1 ≤ base ∧ base ≤ state.ring.cursor ∧ base ≤ workSequence)
    (forward : ∀ id < pool.workerCount, (state.workers id).sequence ≤ (workers id).sequence)
    (handled : ∀ id, (state.workers id).handled <+: (workers id).handled)
    (grown : state.workSequence ≤ workSequence)
    (sound : ∀ id < pool.workerCount,
      (workers id).Sound state.ring.cursor workSequence state.ring.content)
    (handout : Handout (· < pool.workerCount) base workSequence fun id => (workers id).claims)
    (agrees : starter.Agrees pool.workerCount { state with
      workers := workers, workSequence := workSequence, base := base, starter := starter }) :
    Follows pool state { state with
      workers := workers, workSequence := workSequence, base := base, starter := starter } := by
  have gating : ∀ id < pool.workerCount + 1, state.gating pool id ≤ State.gating pool { state with
      workers := workers, workSequence := workSequence, base := base, starter := starter } id := by
    intro id _
    rw [State.gating, State.gating]
    split
    case isTrue known => exact forward id known
    case isFalse => exact grown
  have kept : Inv pool { state with
      workers := workers, workSequence := workSequence, base := base, starter := starter } :=
    { ring := inv.ring.mono gating
      atLeast := based.1
      published := based.2.1
      worked := based.2.2
      starter := agrees
      workers := sound
      handout := handout
      drain := inv.drain.mono gating }
  exact ⟨kept, le_rfl, fun _ _ => rfl, handled⟩

theorem setWorkSequence_follows {before after : State β} (inv : Inv pool before)
    (stepped : setWorkSequence before = some after) : Follows pool before after := by
  have starter := inv.starter
  unfold setWorkSequence at stepped
  split at stepped
  case h_2 => cases stepped
  case h_1 cursor working =>
    cases stepped
    rw [working] at starter
    obtain ⟨atLeast, published, isBase, isWork, fresh⟩ := starter
    have grown : before.workSequence ≤ cursor := isWork.le.trans atLeast
    exact inv.moved ⟨atLeast, published, le_rfl⟩ (fun _ _ => le_rfl) (fun _ => List.prefix_rfl) grown
      (fun id known => (inv.workers id known).mono le_rfl grown fun _ _ => rfl)
      (Handout.start fun id known => (fresh id known).claims)
      ⟨rfl, fun id known _ => fresh id known⟩

/-- One processor has moved. -/
theorem Inv.setWorker {state : State β} (inv : Inv pool state) {id : Nat}
    {worker : WorkProcessor β} {workSequence : Int} {starter : Starter}
    (sound : worker.Sound state.ring.cursor workSequence state.ring.content)
    (forward : (state.workers id).sequence ≤ worker.sequence)
    (handled : (state.workers id).handled <+: worker.handled)
    (grown : state.workSequence ≤ workSequence)
    (handout : Handout (· < pool.workerCount) state.base workSequence
      (Function.update state.claims id worker.claims))
    (agrees : starter.Agrees pool.workerCount { state.setWorker id worker with
      workSequence := workSequence, starter := starter }) :
    Follows pool state { state.setWorker id worker with
      workSequence := workSequence, starter := starter } := by
  have claims : (fun other => (Function.update state.workers id worker other).claims) =
      Function.update state.claims id worker.claims :=
    Function.comp_update WorkProcessor.claims state.workers id worker
  have allForward : ∀ other < pool.workerCount, (state.workers other).sequence ≤
      (Function.update state.workers id worker other).sequence := by
    intro other _
    by_cases isThis : other = id
    · rw [isThis, Function.update_self]
      exact forward
    · rw [Function.update_of_ne isThis]
  have allHandled : ∀ other, (state.workers other).handled <+:
      (Function.update state.workers id worker other).handled := by
    intro other
    by_cases isThis : other = id
    · rw [isThis, Function.update_self]
      exact handled
    · rw [Function.update_of_ne isThis]
  have allSound : ∀ other < pool.workerCount, (Function.update state.workers id worker other).Sound
      state.ring.cursor workSequence state.ring.content := by
    intro other known
    by_cases isThis : other = id
    · rw [isThis, Function.update_self]
      exact sound
    · rw [Function.update_of_ne isThis]
      exact (inv.workers other known).mono le_rfl grown fun _ _ => rfl
  exact inv.moved ⟨inv.atLeast, inv.published, inv.worked.trans grown⟩ allForward allHandled
    grown allSound (claims ▸ handout) agrees

/-- The processors that are not handed over stay so when another one moves, or one of
them keeps out of the executor. -/
theorem fresh_update {workers : Nat → WorkProcessor β} {other id : Nat} {moved : WorkProcessor β}
    (fresh : Fresh (workers other)) (stays : other = id → Fresh moved) :
    Fresh (Function.update workers id moved other) := by
  by_cases isThis : other = id
  · rw [isThis, Function.update_self]
    exact stays isThis
  · rw [Function.update_of_ne isThis]
    exact fresh

theorem launch_follows {before after : State β} (inv : Inv pool before)
    (stepped : launch pool before = some after) : Follows pool before after := by
  have starter := inv.starter
  unfold launch at stepped
  split at stepped
  case h_2 => cases stepped
  case h_1 cursor next launching =>
    rcases Option.ite_none_right_eq_some.mp stepped with ⟨known, isAfter⟩
    cases isAfter
    rw [launching] at starter
    obtain ⟨isBase, fresh⟩ := starter
    have idle := fresh next known le_rfl
    have sound := inv.workers next known
    have worked : cursor ≤ before.workSequence := isBase.le.trans inv.worked
    have claims : WorkProcessor.claims { before.workers next with
        sequence := cursor, stage := .ready } = before.claims next :=
      WorkProcessor.claims_of_stage rfl (by rw [idle.stage]; rfl)
    refine inv.setWorker ⟨sound.cached, worked, trivial, sound.handled⟩ ?_ List.prefix_rfl le_rfl ?_
      ⟨isBase, fun other isOther above => fresh_update (fresh other isOther (by omega)) ?_⟩
    · rw [idle.sequence, isBase]
      exact inv.atLeast
    · rw [claims, Function.update_eq_self]
      exact inv.handout
    · intro isThis
      omega

theorem work_follows {before : State β} {id : Nat} {action : Action β} {after : WorkProcessor β × Int}
    (inv : Inv pool before) (known : id < pool.workerCount)
    (stepped : work before.ring.cursor before.workSequence
      (before.ring.entry pool.buffer) (before.workers id) action =
      some after) :
    Follows pool before { before.setWorker id after.1 with workSequence := after.2 } := by
  have published := inv.atLeast.trans inv.published
  obtain ⟨sound, moves⟩ := work_sound (inv.workers id known)
    (fun sequence ahead shown => inv.slot known ahead shown) (by omega) stepped
  have grown : before.workSequence ≤ after.2 := by
    rcases moves.claims with same | next
    · exact same.1.ge
    · omega
  refine inv.setWorker sound moves.forward moves.handled grown ?_ ?_
  · rcases moves.claims with same | next
    · have claims : after.1.claims = before.claims id := same.2
      rw [same.1, claims, Function.update_eq_self]
      exact inv.handout
    · have claims : after.1.claims = before.claims id ++ [before.workSequence + 1] := next.2
      rw [next.1, claims]
      exact inv.handout.next inv.worked known
  · have starter := inv.starter
    show before.starter.Agrees pool.workerCount
      { before.setWorker id after.1 with workSequence := after.2 }
    cases is : before.starter with
    | stopped =>
        rw [is] at starter
        obtain ⟨isBase, isWork, fresh⟩ := starter
        have stays := (fresh id known).moves moves
        exact ⟨isBase, stays.2.trans isWork,
          fun other isOther => fresh_update (fresh other isOther) fun _ => stays.1⟩
    | working cursor =>
        rw [is] at starter
        obtain ⟨atLeast, shown, isBase, isWork, fresh⟩ := starter
        have stays := (fresh id known).moves moves
        exact ⟨atLeast, shown, isBase, stays.2.trans isWork,
          fun other isOther => fresh_update (fresh other isOther) fun _ => stays.1⟩
    | launching cursor next =>
        rw [is] at starter
        exact ⟨starter.1, fun other isOther above => fresh_update (starter.2 other isOther above)
          fun isThis => ((isThis ▸ starter.2 other isOther above).moves moves).1⟩

/-- What `drainAndHalt` does leaves everyone alone. -/
theorem Inv.drains {state : State β} (inv : Inv pool state) {drain : Drain}
    (agrees : drain.Agrees (pool.workerCount + 1) (state.gating pool)) :
    Follows pool state { state with drain := drain } where
  inv :=
    { ring := inv.ring
      atLeast := inv.atLeast
      published := inv.published
      worked := inv.worked
      starter := by
        have starter := inv.starter
        cases is : state.starter with
        | stopped | working _ | launching _ _ =>
            rw [is] at starter
            exact starter
      workers := inv.workers
      handout := inv.handout
      drain := agrees }
  published := le_rfl
  content := fun _ _ => rfl
  handled := fun _ => List.prefix_rfl

theorem drainEnd_follows {before after : State β} (inv : Inv pool before)
    (stepped : drainEnd pool before = some after) : Follows pool before after := by
  have drain := inv.drain
  unfold drainEnd at stepped
  split at stepped
  case h_2 => cases stepped
  case h_1 cursor minimum comparing =>
    cases stepped
    rw [comparing] at drain
    have below := Scan.Below.all drain rfl
    apply inv.drains
    split
    case isTrue => exact Scan.below_start (fun id known => List.mem_range.mpr known) _ _
    case isFalse reached =>
      exact fun id known => (not_lt.mp reached).trans (below id known)

theorem start_follows {before : State β} (inv : Inv pool before)
    (stopped : before.starter = .stopped) :
    Follows pool before { before with starter := .working before.ring.cursor } := by
  have starter := inv.starter
  rw [stopped] at starter
  exact inv.moved ⟨inv.atLeast, inv.published, inv.worked⟩ (fun _ _ => le_rfl)
    (fun _ => List.prefix_rfl) le_rfl inv.workers inv.handout
    ⟨inv.atLeast.trans inv.published, le_rfl, starter⟩

theorem drainRead_follows {before after : State β} {id : Nat} (inv : Inv pool before)
    (stepped : step pool before (.drainRead id) = some after) : Follows pool before after := by
  have drain := inv.drain
  simp only [step, Action.worker] at stepped
  split at stepped
  case h_2 => cases stepped
  case h_1 cursor scan comparing =>
    rcases Option.map_eq_some_iff.mp stepped with ⟨next, read, isAfter⟩
    cases isAfter
    rw [comparing] at drain
    exact inv.drains (Scan.Below.read drain read).1

theorem step_follows {before after : State β} {action : Action β} (inv : Inv pool before)
    (stepped : step pool before action = some after) : Follows pool before after := by
  cases isWorker : action.worker with
  | some id =>
      unfold step at stepped
      rw [isWorker] at stepped
      rcases Option.ite_none_right_eq_some.mp stepped with ⟨known, stepped⟩
      rcases Option.map_eq_some_iff.mp stepped with ⟨result, worked, isAfter⟩
      cases isAfter
      exact work_follows inv known worked
  | none =>
      cases action with
      | produce action =>
          rcases Option.map_eq_some_iff.mp stepped with ⟨ring, produced, isAfter⟩
          cases isAfter
          exact inv.produced (Publishing.step_follows inv.ring inv.exists_gating_le produced)
      | start =>
          rcases Option.ite_none_right_eq_some.mp stepped with ⟨stopped, isAfter⟩
          cases isAfter
          exact start_follows inv stopped
      | setWorkSequence => exact setWorkSequence_follows inv stepped
      | launch => exact launch_follows inv stepped
      | drainAndHalt =>
          rcases Option.ite_none_right_eq_some.mp stepped with ⟨idle, isAfter⟩
          cases isAfter
          exact inv.drains (Scan.below_start (fun id known => List.mem_range.mpr known) _ _)
      | drainCursor =>
          have drain := inv.drain
          simp only [step, Action.worker] at stepped
          split at stepped
          case h_2 => cases stepped
          case h_1 scan comparing =>
            cases stepped
            rw [comparing] at drain
            exact inv.drains drain
      | drainRead id => exact drainRead_follows inv stepped
      | drainEnd => exact drainEnd_follows inv stepped
      | _ => cases isWorker

theorem run_follows {before after : State β} {actions : List (Action β)} (inv : Inv pool before)
    (ran : Machine.run (step pool) before actions = some after) : Follows pool before after :=
  Machine.run_invariant (Follows pool before) (fun follows stepped =>
      follows.trans (step_follows follows.inv stepped))
    ⟨inv, le_rfl, fun _ _ => rfl, fun _ => List.prefix_rfl⟩ ran

theorem run_inv {entries : Nat → β} {state : State β} {actions : List (Action β)}
    (ran : Machine.run (step pool) (initial pool entries) actions = some state) :
    Inv pool state :=
  (run_follows (inv_initial entries) ran).inv

/-! ### Every event has one handler -/

/-- The processors share the sequences out: those after the cursor that `start` saw, up to
the work sequence, are claimed and no others, no two processors claim the same one, and
each claims in order. -/
theorem pool_claims {entries : Nat → β} {actions : List (Action β)} {state : State β}
    (ran : Machine.run (step pool) (initial pool entries) actions = some state) :
    (∀ sequence, (∃ id < pool.workerCount, sequence ∈ state.claims id) ↔
      state.base < sequence ∧ sequence ≤ state.workSequence) ∧
    (∀ sequence, ∀ one < pool.workerCount, ∀ other < pool.workerCount,
      sequence ∈ state.claims one → sequence ∈ state.claims other → one = other) ∧
    ∀ id < pool.workerCount, (state.claims id).Pairwise (· < ·) := by
  have handout := (run_inv ran).handout
  refine ⟨handout.claimed, ?_, handout.rising⟩
  intro sequence one isOne other isOther inOne inOther
  exact handout.once isOne isOther inOne inOther

/-- Two slots and two processors. -/
def samplePool : WorkerPool where
  indexShift := 1
  workerCount := 2
  small := Nat.succ_le_succ (Nat.zero_le 29)

/-- The second processor is launched first and loses the first sequence. -/
def sampleStart : List (Action Nat) :=
  [.start, .setWorkSequence, .launch, .launch, .run 1, .readWork 1, .storeSequence 1, .run 0,
    .readWork 0, .storeSequence 0, .compareAndSet 0, .compareAndSet 1, .readWork 1,
    .storeSequence 1, .compareAndSet 1]

theorem pool_claims_sample :
    ∃ state, Machine.run (step samplePool) (initial samplePool fun _ => 0) sampleStart =
        some state ∧
      state.workSequence = 1 ∧
      (∃ id < samplePool.workerCount, 1 ∈ state.claims id) ∧
      ¬ ∃ id < samplePool.workerCount, 2 ∈ state.claims id := by
  have base : (Machine.run (step samplePool) (initial samplePool fun _ => 0) sampleStart).map
      (fun state => (state.base, state.workSequence)) = some (-1, 1) := by decide
  rcases Option.map_eq_some_iff.mp base with ⟨state, ran, base⟩
  have isBase : state.base = -1 := congrArg Prod.fst base
  have isWork : state.workSequence = 1 := congrArg Prod.snd base
  refine ⟨state, ran, isWork, ((pool_claims ran).1 1).mpr (by omega), fun claimed => ?_⟩
  have inRange := ((pool_claims ran).1 2).mp claimed
  omega

/-- What a processor handles is what was published for the sequence it claimed, and what it
has claimed and not handled, also when it gave up, is kept in its slot: no later step
overwrites it. -/
theorem pool_delivers {entries : Nat → β} {first second : List (Action β)}
    {before after : State β}
    (ran : Machine.run (step pool) (initial pool entries) first = some before)
    (later : Machine.run (step pool) before second = some after) :
    ∀ id < pool.workerCount,
      (before.workers id).handled <+: (after.workers id).handled ∧
      (∀ entry ∈ (before.workers id).handled,
        entry.1 ≤ before.ring.cursor ∧ entry.2 = after.ring.content entry.1) ∧
      ∀ sequence ∈ (after.workers id).stage.claim, sequence ≤ before.ring.cursor →
        after.ring.entry pool.buffer sequence = before.ring.content sequence := by
  intro id known
  have inv := run_inv ran
  have follows := run_follows inv later
  refine ⟨follows.handled id, ?_, ?_⟩
  · intro entry handled
    have sound := (inv.workers id known).handled entry handled
    exact ⟨sound.1, sound.2.trans (follows.content entry.1 sound.1).symm⟩
  · intro sequence claimed published
    have own := (follows.inv.workers id known).claimed claimed
    rw [follows.inv.slot known (by omega) (published.trans follows.published)]
    exact follows.content sequence published

/-- Two events are published, of which the first processor handles one. -/
def samplePublish : List (Action Nat) :=
  [.produce (.call ⟨false, 2⟩), .produce (.write 0 7), .produce (.write 1 8), .produce .publish,
    .waited 0 1, .handle 0]

/-- The other one is halted while it waits, and the producer asks for more. -/
def samplePassing : List (Action Nat) :=
  [.halt 1, .alerted 1, .produce (.call ⟨false, 1⟩)]

theorem pool_delivers_sample :
    ∃ before after,
      Machine.run (step samplePool) (initial samplePool fun _ => 0) (sampleStart ++ samplePublish) =
        some before ∧
      Machine.run (step samplePool) before samplePassing = some after ∧
      (before.workers 0).handled = [(0, 7)] ∧ (after.workers 1).stage = .stopped 1 ∧
      after.ring.entry samplePool.buffer 1 = before.ring.content 1 := by
  have published : (Machine.run (step samplePool) (initial samplePool fun _ => 0)
      (sampleStart ++ samplePublish)).map (fun state =>
        ((state.workers 0).handled, state.ring.cursor,
          (Machine.run (step samplePool) state samplePassing).map
            fun later => (later.workers 1).stage)) =
      some ([(0, 7)], 1, some (.stopped 1)) := by decide
  rcases Option.map_eq_some_iff.mp published with ⟨before, ran, facts⟩
  rcases Option.map_eq_some_iff.mp (congrArg (fun fact => fact.2.2) facts) with
    ⟨after, later, stopped⟩
  have cursor : before.ring.cursor = 1 := congrArg (fun fact => fact.2.1) facts
  have claimed : (1 : Int) ∈ (after.workers 1).stage.claim := by
    rw [stopped]
    exact List.mem_singleton_self 1
  exact ⟨before, after, ran, later, congrArg Prod.fst facts, stopped,
    (pool_delivers ran later 1 Nat.one_lt_two).2.2 1 claimed cursor.ge⟩

/-- When `drainAndHalt` has left its loop, everything published after the cursor that
`start` saw, up to the cursor that the loop saw, has been handled by exactly one
processor. -/
theorem drainAndHalt_drained {entries : Nat → β} {actions : List (Action β)} {state : State β}
    (ran : Machine.run (step pool) (initial pool entries) actions = some state) {cursor : Int}
    (drained : state.drain = .drained cursor) :
    ∀ sequence, state.base < sequence → sequence ≤ cursor →
      ∃! id, id < pool.workerCount ∧
        (sequence, state.ring.content sequence) ∈ (state.workers id).handled := by
  have inv := run_inv ran
  have below := inv.drain
  rw [drained] at below
  intro sequence after upTo
  have worked := below pool.workerCount (Nat.lt_succ_self _)
  rw [State.gating, if_neg (lt_irrefl _)] at worked
  obtain ⟨id, known, claimed⟩ := (inv.handout.claimed sequence).mpr ⟨after, upTo.trans worked⟩
  have own := below id (known.trans (Nat.lt_succ_self _))
  rw [State.gating, if_pos known] at own
  have sound := inv.workers id known
  refine ⟨id, ⟨known, ?_⟩, ?_⟩
  · rcases List.mem_append.mp claimed with handled | unhandled
    · rcases List.mem_map.mp handled with ⟨entry, member, rfl⟩
      rw [← (sound.handled entry member).2]
      exact member
    · have waits := sound.claimed unhandled
      omega
  · intro other isOther
    exact inv.handout.once isOther.1 known
      (List.mem_append_left _ (List.mem_map_of_mem isOther.2)) claimed

/-- Both go on to claim, and `drainAndHalt` reads the cursor before their sequences. -/
def sampleDrain : List (Action Nat) :=
  [.waited 1 1, .handle 1, .readWork 0, .storeSequence 0, .readWork 1, .storeSequence 1,
    .drainAndHalt, .drainCursor, .drainRead 1, .drainRead 2, .drainRead 0, .drainEnd]

theorem drainAndHalt_drained_sample :
    ∃ state, Machine.run (step samplePool) (initial samplePool fun _ => 0)
        (sampleStart ++ samplePublish ++ sampleDrain) = some state ∧
      state.drain = .drained 1 ∧
      ∃! id, id < samplePool.workerCount ∧
        (1, state.ring.content 1) ∈ (state.workers id).handled := by
  have drained : (Machine.run (step samplePool) (initial samplePool fun _ => 0)
      (sampleStart ++ samplePublish ++ sampleDrain)).map
        (fun state => (state.drain, state.base)) = some (.drained 1, -1) := by decide
  rcases Option.map_eq_some_iff.mp drained with ⟨state, ran, facts⟩
  have isDrained : state.drain = .drained 1 := congrArg Prod.fst facts
  have base : state.base = -1 := congrArg Prod.snd facts
  exact ⟨state, ran, isDrained, drainAndHalt_drained ran isDrained 1 (by omega) le_rfl⟩

/-! ### No event is left waiting -/

/-- A step of a processor that needs nobody else, and no timeout, alert or halt. -/
def Action.Quiet : Action β → Prop
  | .run _ | .readWork _ | .storeSequence _ | .compareAndSet _ | .handle _ | .waited _ _ => True
  | _ => False

/-- How many such steps a processor is from holding a claim that is not published, while
the work sequence stays. One that has read a work sequence since replaced has to go round
once more. -/
def weight (workSequence : Int) (worker : WorkProcessor β) : Nat :=
  match worker.stage with
  | .idle | .stopped _ | .left => 0
  | .ready => 3
  | .claiming => 2
  | .storing nextSequence => if nextSequence = workSequence + 1 then 1 else 4
  | .swapping nextSequence => if nextSequence = workSequence + 1 then 0 else 3
  | .holding nextSequence => if worker.cachedAvailableSequence < nextSequence then 4 else 3

theorem weight_next_le (workSequence : Int) (worker : WorkProcessor β) :
    weight (workSequence + 1) worker ≤ weight workSequence worker + 3 := by
  rcases worker with ⟨running, sequence, cached, stage, handled⟩
  cases stage with
  | storing nextSequence | swapping nextSequence =>
      simp only [weight]
      split <;> split <;> omega
  | idle | ready | claiming | holding _ | stopped _ | left => exact Nat.le_add_right _ _

/-- A quiet step brings its processor nearer, or takes the next sequence. -/
theorem work_nearer {action : Action β} {after : WorkProcessor β × Int} (quiet : action.Quiet)
    (stepped : work cursor workSequence entry worker action = some after) :
    after.2 = workSequence ∧ weight workSequence after.1 < weight workSequence worker ∨
      after.2 = workSequence + 1 ∧ weight (workSequence + 1) after.1 ≤ 4 := by
  cases action with
  | run id =>
      rcases Option.ite_none_right_eq_some.mp stepped with ⟨ready, isAfter⟩
      cases isAfter
      refine .inl ⟨rfl, ?_⟩
      simp only [weight, ready]
      omega
  | readWork id =>
      rcases Option.ite_none_right_eq_some.mp stepped with ⟨claiming, isAfter⟩
      cases isAfter
      refine .inl ⟨rfl, ?_⟩
      simp only [weight, claiming, if_true]
      omega
  | storeSequence id =>
      simp only [work] at stepped
      split at stepped
      case h_2 => cases stepped
      case h_1 nextSequence storing =>
        cases stepped
        refine .inl ⟨rfl, ?_⟩
        simp only [weight, storing]
        split <;> omega
  | compareAndSet id =>
      simp only [work] at stepped
      split at stepped
      case h_2 => cases stepped
      case h_1 nextSequence swapping =>
        split at stepped
        case isTrue isNext =>
          cases stepped
          refine .inr ⟨by omega, ?_⟩
          simp only [weight]
          split <;> omega
        case isFalse isOld =>
          cases stepped
          refine .inl ⟨rfl, ?_⟩
          have replaced : ¬ nextSequence = workSequence + 1 := by omega
          simp only [weight, swapping, if_neg replaced]
          omega
  | handle id =>
      simp only [work] at stepped
      split at stepped
      case h_2 => cases stepped
      case h_1 nextSequence holding =>
        rcases Option.ite_none_right_eq_some.mp stepped with ⟨available, isAfter⟩
        cases isAfter
        refine .inl ⟨rfl, ?_⟩
        simp only [weight, holding, if_neg (not_lt.mpr available)]
        omega
  | waited id available =>
      simp only [work] at stepped
      split at stepped
      case h_2 => cases stepped
      case h_1 nextSequence holding =>
        rcases Option.ite_none_right_eq_some.mp stepped with ⟨waits, isAfter⟩
        cases isAfter
        refine .inl ⟨rfl, ?_⟩
        simp only [weight, holding, if_pos waits.1, if_neg (not_lt.mpr waits.2.1)]
        omega
  | _ => exact absurd quiet id

/-- Each processor holds at most one sequence that is not published. -/
theorem Inv.workSequence_le {state : State β} (inv : Inv pool state) :
    state.workSequence ≤ state.ring.cursor + pool.workerCount := by
  apply inv.handout.top_le inv.published
  intro id known first inFirst second inSecond ahead alsoAhead
  have sound := inv.workers id known
  have one := sound.claimed (sound.unpublished inFirst ahead)
  have two := sound.claimed (sound.unpublished inSecond alsoAhead)
  omega

/-- An upper bound for the quiet steps that are left. -/
def State.quietSteps (pool : WorkerPool) (state : State β) : Nat :=
  (state.ring.cursor + pool.workerCount - state.workSequence).toNat *
      (3 * pool.workerCount + 5) +
    Machine.totalWeight pool.workerCount (weight state.workSequence) state.workers

theorem quiet_lowers {before after : State β} {action : Action β} (inv : Inv pool before)
    (quiet : action.Quiet) (stepped : step pool before action = some after) :
    after.quietSteps pool < before.quietSteps pool := by
  have room := (step_follows inv stepped).inv.workSequence_le
  cases isWorker : action.worker with
  | none =>
      cases action <;> first | exact absurd quiet id | cases isWorker
  | some id =>
      unfold step at stepped
      rw [isWorker] at stepped
      rcases Option.ite_none_right_eq_some.mp stepped with ⟨known, stepped⟩
      rcases Option.map_eq_some_iff.mp stepped with ⟨result, worked, isAfter⟩
      cases isAfter
      have moved := Machine.totalWeight_update known (weight result.2) before.workers result.1
      simp only [State.quietSteps]
      rcases work_nearer quiet worked with same | next
      · obtain ⟨isWork, nearer⟩ := same
        rw [isWork] at moved ⊢
        show _ + Machine.totalWeight _ _ (Function.update before.workers id result.1) < _
        have rest : (before.setWorker id result.1).ring = before.ring := rfl
        rw [rest]
        omega
      · obtain ⟨isWork, light⟩ := next
        rw [isWork] at moved room ⊢
        have heavier := Machine.totalWeight_le_add (weight_next_le (β := β) before.workSequence)
          pool.workerCount before.workers
        have left : (before.ring.cursor + pool.workerCount - before.workSequence).toNat =
            (before.ring.cursor + pool.workerCount - (before.workSequence + 1)).toNat + 1 := by
          have room : before.workSequence + 1 ≤ before.ring.cursor + pool.workerCount := room
          omega
        show (before.ring.cursor + pool.workerCount - (before.workSequence + 1)).toNat *
          (3 * pool.workerCount + 5) +
          Machine.totalWeight _ _ (Function.update before.workers id result.1) < _
        rw [left, Nat.add_mul, Nat.one_mul]
        omega

/-- Nothing to do until more is published. -/
def Stage.Rests (cursor : Int) : Stage → Prop
  | .idle | .stopped _ | .left => True
  | .holding nextSequence => cursor < nextSequence
  | .ready | .claiming | .storing _ | .swapping _ => False

theorem Stage.Rests.holding {cursor : Int} {stage : Stage} (rests : stage.Rests cursor)
    (inLoop : stage.InLoop) : ∃ nextSequence, stage = .holding nextSequence ∧
      cursor < nextSequence := by
  cases stage with
  | holding nextSequence => exact ⟨nextSequence, rfl, rests⟩
  | idle | ready | stopped _ | left => exact inLoop.elim
  | claiming | storing _ | swapping _ => exact rests.elim

/-- A processor that cannot move rests. -/
theorem rests_of_stuck {state : State β}
    (stuck : ∀ action : Action β, action.Quiet → step pool state action = none) {id : Nat}
    (known : id < pool.workerCount) : (state.workers id).stage.Rests state.ring.cursor := by
  have still : ∀ action : Action β, action.Quiet → action.worker = some id →
      work state.ring.cursor state.workSequence
        (state.ring.entry pool.buffer) (state.workers id) action = none := by
    intro action quiet isWorker
    have refused := stuck action quiet
    unfold step at refused
    rw [isWorker] at refused
    exact Option.map_eq_none_iff.mp ((if_pos known).symm.trans refused)
  cases stage : (state.workers id).stage with
  | idle | stopped _ | left => trivial
  | ready =>
      have refused := still (.run id) trivial rfl
      simp [work, stage] at refused
  | claiming =>
      have refused := still (.readWork id) trivial rfl
      simp [work, stage] at refused
  | storing sequence =>
      have refused := still (.storeSequence id) trivial rfl
      simp [work, stage] at refused
  | swapping sequence =>
      have refused := still (.compareAndSet id) trivial rfl
      simp only [work, stage] at refused
      split at refused <;> cases refused
  | holding sequence =>
      show state.ring.cursor < sequence
      by_contra published
      by_cases cached : sequence ≤ (state.workers id).cachedAvailableSequence
      · have refused := still (.handle id) trivial rfl
        simp [work, stage, cached] at refused
      · have refused := still (.waited id state.ring.cursor) trivial rfl
        simp [work, stage, not_le.mp cached, not_lt.mp published] at refused

/-- A processor that rests cannot move. -/
theorem work_of_rests {action : Action β} (quiet : action.Quiet)
    (cached : worker.cachedAvailableSequence ≤ cursor) (rests : worker.stage.Rests cursor) :
    work cursor workSequence entry worker action = none := by
  cases stage : worker.stage with
  | ready | claiming | storing _ | swapping _ =>
      rw [stage] at rests
      exact rests.elim
  | idle | stopped _ | left =>
      cases action <;> first | exact absurd quiet id | simp [work, stage]
  | holding sequence =>
      rw [stage] at rests
      have ahead : cursor < sequence := rests
      cases action with
      | run _ | readWork _ | storeSequence _ | compareAndSet _ => simp [work, stage]
      | handle _ =>
          simp only [work, stage]
          exact if_neg (not_le.mpr (cached.trans_lt ahead))
      | waited _ available =>
          simp only [work, stage]
          refine if_neg fun waits => ?_
          omega
      | _ => exact absurd quiet id

theorem Inv.stuck_of_rests {state : State β} (inv : Inv pool state)
    (rests : ∀ id < pool.workerCount, (state.workers id).stage.Rests state.ring.cursor)
    {action : Action β} (quiet : action.Quiet) : step pool state action = none := by
  unfold step
  cases isWorker : action.worker with
  | none =>
      cases action <;> first | exact absurd quiet id | cases isWorker
  | some id =>
      show (if id < pool.workerCount then _ else none) = none
      split
      case isTrue known =>
        rw [work_of_rests quiet (inv.workers id known).cached (rests id known)]
        rfl
      case isFalse => rfl

/-- While a processor waits for more, everything published was handled or given up. -/
theorem Inv.settled {state : State β} (inv : Inv pool state)
    (rests : ∀ id < pool.workerCount, (state.workers id).stage.Rests state.ring.cursor)
    {waiting : Nat} (known : waiting < pool.workerCount) {next : Int}
    (holding : (state.workers waiting).stage = .holding next)
    (ahead : state.ring.cursor < next) {sequence : Int} (after : state.base < sequence)
    (published : sequence ≤ state.ring.cursor) :
    ∃ id < pool.workerCount, (sequence, state.ring.content sequence) ∈ (state.workers id).handled ∨
      (state.workers id).stage = .stopped sequence := by
  have claimsNext : next ∈ state.claims waiting := by
    refine List.mem_append_right _ ?_
    rw [holding]
    exact List.mem_singleton_self next
  have worked := (inv.handout.bounded known claimsNext).2
  obtain ⟨id, isKnown, claimed⟩ := (inv.handout.claimed sequence).mpr
    ⟨after, published.trans (ahead.le.trans worked)⟩
  refine ⟨id, isKnown, ?_⟩
  rcases List.mem_append.mp claimed with handled | unhandled
  · rcases List.mem_map.mp handled with ⟨entry, member, rfl⟩
    rw [← ((inv.workers id isKnown).handled entry member).2]
    exact .inl member
  · have resting := rests id isKnown
    cases stage : (state.workers id).stage with
    | idle | ready | claiming | storing _ | swapping _ | left =>
        rw [stage] at unhandled
        cases unhandled
    | stopped given =>
        rw [stage] at unhandled
        rw [List.mem_singleton.mp unhandled]
        exact .inr rfl
    | holding other =>
        rw [stage] at unhandled resting
        have same := List.mem_singleton.mp unhandled
        have beyond : state.ring.cursor < other := resting
        omega

/-- The first processor goes on to wait for the third event. -/
def sampleSettling : List (Action Nat) :=
  samplePassing ++ [.readWork 0, .storeSequence 0, .compareAndSet 0]

end WorkerPool

end Dift.Disruptor
