import Dift.Foundation.Machine

/-!
Owns the bounded blocking queue `ejfat::queue`: one mutex, a condition variable
for each side, and any number of threads in `push`, `try_push`, `pop`,
`try_pop` and `size`. Taking the mutex, looking at the predicate, changing the
content, leaving the mutex section and notifying are steps of their own, and a
waiting thread may be woken for no reason, so that the runs are all
interleavings.
-/

namespace Dift.Supply.BlockingQueue

open Dift.Foundation

/-- The calls a thread can make. -/
inductive Call (α : Type*) where
  | push (item : α)
  | tryPush (item : α)
  | pop
  | tryPop
  | size
deriving DecidableEq, Repr

inductive Condition where
  | notEmpty
  | notFull
deriving DecidableEq, Repr

/-- What a call came to. The item stored is recorded for the statements only. -/
inductive Outcome (α : Type*) where
  | stored (item : α)
  | got (item : α)
  | refused
  | counted (size : Nat)
deriving DecidableEq, Repr

/-- Where a thread is. `sleeping` is in the wait set of the condition variable
its call waits on, `leaving` still has the mutex, `notifying` has given it
back. -/
inductive Stage (α : Type*) where
  | idle
  | locking (call : Call α)
  | sleeping (call : Call α)
  | locked (call : Call α)
  | ready (call : Call α)
  | leaving (call : Call α) (outcome : Outcome α)
  | notifying (outcome : Outcome α)
deriving DecidableEq, Repr

/-- The queue and its threads. The last three fields record what the calls of
each thread came to, and who stored and took what, in the order of the
content's changes. -/
structure State (α : Type*) where
  content : List α
  mutex : Option Nat
  stages : Nat → Stage α
  outcomes : Nat → List (Outcome α)
  pushed : List (Nat × α)
  popped : List (Nat × α)

variable {α : Type*}

def initial : State α where
  content := []
  mutex := none
  stages := fun _ => .idle
  outcomes := fun _ => []
  pushed := []
  popped := []

/-! ### Steps -/

inductive Action (α : Type*) where
  | call (id : Nat) (call : Call α)
  | lock (id : Nat)
  | check (id : Nat)
  | change (id : Nat)
  | unlock (id : Nat)
  | notify (id : Nat)
  | wake (id : Nat)
deriving DecidableEq, Repr

/-- The condition variable a call waits on; the `try_` calls do not wait. -/
def Call.waitsOn : Call α → Option Condition
  | .push _ => some .notFull
  | .pop => some .notEmpty
  | _ => none

/-- The predicate, as each call looks at it. -/
def Call.goes (capacity : Nat) (content : List α) : Call α → Bool
  | .push _ => content.length < capacity
  | .tryPush _ => !(content.length == capacity)
  | .pop => !content.isEmpty
  | .tryPop => !content.isEmpty
  | .size => true

/-- The condition variable that is notified after the mutex section. -/
def Outcome.notifies : Outcome α → Option Condition
  | .stored _ => some .notEmpty
  | .got _ => some .notFull
  | _ => none

def State.setStage (state : State α) (id : Nat) (stage : Stage α) : State α :=
  { state with stages := Function.update state.stages id stage }

/-- The end of a call. -/
def State.finish (state : State α) (id : Nat) (outcome : Outcome α) : State α :=
  { state.setStage id .idle with
    outcomes := Function.update state.outcomes id (state.outcomes id ++ [outcome]) }

def call (state : State α) (id : Nat) (call : Call α) : Option (State α) :=
  match state.stages id with
  | .idle => some (state.setStage id (.locking call))
  | _ => none

def lock (state : State α) (id : Nat) : Option (State α) :=
  match state.stages id, state.mutex with
  | .locking call, none => some { state.setStage id (.locked call) with mutex := some id }
  | _, _ => none

/-- Waiting gives the mutex back. -/
def check (capacity : Nat) (state : State α) (id : Nat) : Option (State α) :=
  match state.stages id with
  | .locked call =>
      if call.goes capacity state.content then some (state.setStage id (.ready call))
      else if call.waitsOn.isSome then
        some { state.setStage id (.sleeping call) with mutex := none }
      else some (state.setStage id (.leaving call .refused))
  | _ => none

/-- `push_back`. -/
def State.store (state : State α) (id : Nat) (call : Call α) (item : α) : State α :=
  { state.setStage id (.leaving call (.stored item)) with
    content := state.content ++ [item]
    pushed := state.pushed ++ [(id, item)] }

/-- `front` and `pop_front`. -/
def State.take (state : State α) (id : Nat) (call : Call α) (item : α) (rest : List α) : State α :=
  { state.setStage id (.leaving call (.got item)) with
    content := rest
    popped := state.popped ++ [(id, item)] }

/-- The front of an empty content is undefined. -/
def change (state : State α) (id : Nat) : Option (State α) :=
  match state.stages id with
  | .ready (.push item) => some (state.store id (.push item) item)
  | .ready (.tryPush item) => some (state.store id (.tryPush item) item)
  | .ready .size =>
      some (state.setStage id (.leaving .size (.counted state.content.length)))
  | .ready call =>
      match state.content with
      | [] => none
      | item :: rest => some (state.take id call item rest)
  | _ => none

def unlock (state : State α) (id : Nat) : Option (State α) :=
  match state.stages id with
  | .leaving _ outcome =>
      if outcome.notifies.isSome then
        some { state.setStage id (.notifying outcome) with mutex := none }
      else some { state.finish id outcome with mutex := none }
  | _ => none

/-- A thread that waits on the condition variable wants the mutex again. -/
def Stage.notified (condition : Condition) : Stage α → Stage α
  | .sleeping call =>
      if call.waitsOn = some condition then .locking call else .sleeping call
  | stage => stage

/-- `notify_all`. -/
def State.notifyAll (state : State α) (condition : Condition) : State α :=
  { state with stages := fun other => (state.stages other).notified condition }

/-- The notification, then the call returns. -/
def notify (state : State α) (id : Nat) : Option (State α) :=
  match state.stages id with
  | .notifying outcome =>
      match outcome.notifies with
      | some condition => some ((state.notifyAll condition).finish id outcome)
      | none => none
  | _ => none

/-- A wait may end without a notification. -/
def wake (state : State α) (id : Nat) : Option (State α) :=
  match state.stages id with
  | .sleeping call => some (state.setStage id (.locking call))
  | _ => none

def step (capacity : Nat) (state : State α) : Action α → Option (State α)
  | .call id call => BlockingQueue.call state id call
  | .lock id => lock state id
  | .check id => check capacity state id
  | .change id => change state id
  | .unlock id => unlock state id
  | .notify id => notify state id
  | .wake id => wake state id

/-! ### What a step does -/

@[simp] theorem State.setStage_stages (state : State α) (id : Nat) (stage : Stage α) :
    (state.setStage id stage).stages = Function.update state.stages id stage := rfl

@[simp] theorem State.setStage_content (state : State α) (id : Nat) (stage : Stage α) :
    (state.setStage id stage).content = state.content := rfl

@[simp] theorem State.setStage_mutex (state : State α) (id : Nat) (stage : Stage α) :
    (state.setStage id stage).mutex = state.mutex := rfl

@[simp] theorem State.finish_stages (state : State α) (id : Nat) (outcome : Outcome α) :
    (state.finish id outcome).stages = Function.update state.stages id .idle := rfl

@[simp] theorem State.notifyAll_stages (state : State α) (condition : Condition) (id : Nat) :
    (state.notifyAll condition).stages id = (state.stages id).notified condition := rfl

@[simp] theorem State.store_stages (state : State α) (id : Nat) (call : Call α) (item : α) :
    (state.store id call item).stages =
      Function.update state.stages id (.leaving call (.stored item)) := rfl

@[simp] theorem State.take_stages (state : State α) (id : Nat) (call : Call α) (item : α)
    (rest : List α) : (state.take id call item rest).stages =
      Function.update state.stages id (.leaving call (.got item)) := rfl

/-- Every step of a thread, with its guard. -/
inductive Move (capacity : Nat) (before : State α) (id : Nat) : State α → Prop where
  | calls {call : Call α} (stage : before.stages id = .idle) :
      Move capacity before id (before.setStage id (.locking call))
  | locks {call : Call α} (stage : before.stages id = .locking call)
      (free : before.mutex = none) :
      Move capacity before id { before.setStage id (.locked call) with mutex := some id }
  | goes {call : Call α} (stage : before.stages id = .locked call)
      (goes : call.goes capacity before.content = true) :
      Move capacity before id (before.setStage id (.ready call))
  | sleeps {call : Call α} {condition : Condition} (stage : before.stages id = .locked call)
      (blocked : call.goes capacity before.content = false)
      (waits : call.waitsOn = some condition) :
      Move capacity before id { before.setStage id (.sleeping call) with mutex := none }
  | refuses {call : Call α} (stage : before.stages id = .locked call)
      (blocked : call.goes capacity before.content = false) (waits : call.waitsOn = none) :
      Move capacity before id (before.setStage id (.leaving call .refused))
  | stores {call : Call α} {item : α} (stage : before.stages id = .ready call)
      (isPush : call = .push item ∨ call = .tryPush item) :
      Move capacity before id (before.store id call item)
  | takes {call : Call α} {item : α} {rest : List α} (stage : before.stages id = .ready call)
      (isPop : call = .pop ∨ call = .tryPop) (front : before.content = item :: rest) :
      Move capacity before id (before.take id call item rest)
  | counts (stage : before.stages id = .ready .size) :
      Move capacity before id
        (before.setStage id (.leaving .size (.counted before.content.length)))
  | leaves {call : Call α} {outcome : Outcome α} (stage : before.stages id = .leaving call outcome)
      (silent : outcome.notifies = none) :
      Move capacity before id { before.finish id outcome with mutex := none }
  | unlocks {call : Call α} {outcome : Outcome α} {condition : Condition}
      (stage : before.stages id = .leaving call outcome)
      (notifies : outcome.notifies = some condition) :
      Move capacity before id { before.setStage id (.notifying outcome) with mutex := none }
  | notifies {outcome : Outcome α} {condition : Condition}
      (stage : before.stages id = .notifying outcome)
      (notifies : outcome.notifies = some condition) :
      Move capacity before id ((before.notifyAll condition).finish id outcome)
  | wakes {call : Call α} (stage : before.stages id = .sleeping call) :
      Move capacity before id (before.setStage id (.locking call))

/-- The thread that moves. -/
def Action.thread : Action α → Nat
  | .call id _ => id
  | .lock id => id
  | .check id => id
  | .change id => id
  | .unlock id => id
  | .notify id => id
  | .wake id => id

theorem check_move {capacity : Nat} {before after : State α} {id : Nat}
    (stepped : check capacity before id = some after) : Move capacity before id after := by
  unfold check at stepped
  split at stepped
  case h_2 => cases stepped
  case h_1 call stage =>
    by_cases goes : call.goes capacity before.content = true
    · rw [if_pos goes] at stepped
      cases stepped
      exact .goes stage goes
    · rw [if_neg goes] at stepped
      have blocked := Bool.eq_false_of_not_eq_true goes
      cases waits : call.waitsOn with
      | none =>
          rw [waits, if_neg (by simp)] at stepped
          cases stepped
          exact .refuses stage blocked waits
      | some condition =>
          rw [waits, if_pos Option.isSome_some] at stepped
          cases stepped
          exact .sleeps stage blocked waits

theorem change_move {capacity : Nat} {before after : State α} {id : Nat}
    (stepped : change before id = some after) : Move capacity before id after := by
  unfold change at stepped
  split at stepped
  case h_1 item stage =>
    cases stepped
    exact .stores stage (.inl rfl)
  case h_2 item stage =>
    cases stepped
    exact .stores stage (.inr rfl)
  case h_3 stage =>
    cases stepped
    exact .counts stage
  case h_4 call noPush noTryPush noSize stage =>
    have isPop : call = .pop ∨ call = .tryPop := by
      cases call with
      | push item => exact absurd rfl (noPush item)
      | tryPush item => exact absurd rfl (noTryPush item)
      | pop => exact .inl rfl
      | tryPop => exact .inr rfl
      | size => exact absurd rfl noSize
    split at stepped
    case h_1 => cases stepped
    case h_2 item rest front =>
      cases stepped
      exact .takes stage isPop front
  case h_5 => cases stepped

theorem unlock_move {capacity : Nat} {before after : State α} {id : Nat}
    (stepped : unlock before id = some after) : Move capacity before id after := by
  unfold unlock at stepped
  split at stepped
  case h_2 => cases stepped
  case h_1 call outcome stage =>
    cases notifies : outcome.notifies with
    | none =>
        rw [notifies, if_neg (by simp)] at stepped
        cases stepped
        exact .leaves stage notifies
    | some condition =>
        rw [notifies, if_pos Option.isSome_some] at stepped
        cases stepped
        exact .unlocks stage notifies

theorem notify_move {capacity : Nat} {before after : State α} {id : Nat}
    (stepped : notify before id = some after) : Move capacity before id after := by
  unfold notify at stepped
  split at stepped
  case h_2 => cases stepped
  case h_1 outcome stage =>
    split at stepped
    case h_2 => cases stepped
    case h_1 condition notifies =>
      cases stepped
      exact .notifies stage notifies

/-- Every step is a move of its thread. -/
theorem step_move {capacity : Nat} {before after : State α} {action : Action α}
    (stepped : step capacity before action = some after) :
    Move capacity before action.thread after := by
  cases action with
  | call id call =>
      simp only [step, BlockingQueue.call] at stepped
      split at stepped
      case h_2 => cases stepped
      case h_1 stage =>
        cases stepped
        exact .calls stage
  | lock id =>
      simp only [step, lock] at stepped
      split at stepped
      case h_2 => cases stepped
      case h_1 call stage free =>
        cases stepped
        exact .locks stage free
  | check id => exact check_move stepped
  | change id => exact change_move stepped
  | unlock id => exact unlock_move stepped
  | notify id => exact notify_move stepped
  | wake id =>
      simp only [step, wake] at stepped
      split at stepped
      case h_2 => cases stepped
      case h_1 call stage =>
        cases stepped
        exact .wakes stage

/-! ### Mutual exclusion -/

/-- Inside the mutex section. -/
def Stage.inside : Stage α → Bool
  | .locked _ => true
  | .ready _ => true
  | .leaving _ _ => true
  | _ => false

@[simp] theorem Stage.inside_notified (stage : Stage α) (condition : Condition) :
    (stage.notified condition).inside = stage.inside := by
  cases stage with
  | sleeping call =>
      simp only [Stage.notified]
      split <;> rfl
  | _ => rfl

/-- The mutex says who is inside. -/
def Exclusive (state : State α) : Prop :=
  ∀ id, (state.stages id).inside = true ↔ state.mutex = some id

theorem exclusive_initial : Exclusive (initial : State α) := by
  intro id
  simp [initial, Stage.inside]

/-- A thread that stays on its side of the mutex changes nothing. -/
theorem Exclusive.stay {before after : State α} (exclusive : Exclusive before) {id : Nat}
    {stage : Stage α} (stages : after.stages = Function.update before.stages id stage)
    (same : stage.inside = (before.stages id).inside) (mutex : after.mutex = before.mutex) :
    Exclusive after := by
  intro other
  rw [stages, mutex, ← exclusive other]
  by_cases isThis : other = id
  · subst isThis
    rw [Function.update_self, same]
  · rw [Function.update_of_ne isThis]

/-- The thread inside leaves. -/
theorem Exclusive.leave {before after : State α} (exclusive : Exclusive before) {id : Nat}
    {stage : Stage α} (stages : after.stages = Function.update before.stages id stage)
    (wasInside : (before.stages id).inside = true) (outside : stage.inside = false)
    (mutex : after.mutex = none) : Exclusive after := by
  intro other
  rw [stages, mutex]
  by_cases isThis : other = id
  · subst isThis
    simp [outside]
  · rw [Function.update_of_ne isThis, exclusive other, (exclusive id).mp wasInside]
    simpa using fun same : id = other => isThis same.symm

theorem Exclusive.notifyAll {state : State α} (exclusive : Exclusive state)
    (condition : Condition) : Exclusive (state.notifyAll condition) := by
  intro id
  rw [State.notifyAll_stages, Stage.inside_notified]
  exact exclusive id

theorem Exclusive.move {capacity : Nat} {before after : State α} {id : Nat}
    (exclusive : Exclusive before) (move : Move capacity before id after) : Exclusive after := by
  cases move with
  | calls stage => exact exclusive.stay rfl (by rw [stage]; rfl) rfl
  | locks stage free =>
      intro other
      by_cases isThis : other = id
      · subst isThis
        simp [Stage.inside]
      · have outside := exclusive other
        rw [free] at outside
        simp only [State.setStage_stages, Function.update_of_ne isThis, outside]
        simpa using fun same : id = other => isThis same.symm
  | goes stage => exact exclusive.stay rfl (by rw [stage]; rfl) rfl
  | sleeps stage => exact exclusive.leave rfl (by rw [stage]; rfl) rfl rfl
  | refuses stage => exact exclusive.stay rfl (by rw [stage]; rfl) rfl
  | stores stage => exact exclusive.stay rfl (by rw [stage]; rfl) rfl
  | takes stage => exact exclusive.stay rfl (by rw [stage]; rfl) rfl
  | counts stage => exact exclusive.stay rfl (by rw [stage]; rfl) rfl
  | leaves stage => exact exclusive.leave rfl (by rw [stage]; rfl) rfl rfl
  | unlocks stage => exact exclusive.leave rfl (by rw [stage]; rfl) rfl rfl
  | notifies stage notifies =>
      exact (exclusive.notifyAll _).stay rfl (by rw [State.notifyAll_stages, stage]; rfl) rfl
  | wakes stage => exact exclusive.stay rfl (by rw [stage]; rfl) rfl

/-! ### First in, first out -/

/-- What a call stored, and what it got. -/
def Outcome.storedItem : Outcome α → Option α
  | .stored item => some item
  | _ => none

def Outcome.gotItem : Outcome α → Option α
  | .got item => some item
  | _ => none

/-- What the call of a thread has come to, when it has not returned yet. -/
def Stage.outcome : Stage α → List (Outcome α)
  | .leaving _ outcome => [outcome]
  | .notifying outcome => [outcome]
  | _ => []

@[simp] theorem Stage.outcome_notified (stage : Stage α) (condition : Condition) :
    (stage.notified condition).outcome = stage.outcome := by
  cases stage with
  | sleeping call =>
      simp only [Stage.notified]
      split <;> rfl
  | _ => rfl

/-- What the calls of a thread came to, in order. -/
def State.done (state : State α) (id : Nat) : List (Outcome α) :=
  state.outcomes id ++ (state.stages id).outcome

theorem State.store_done (state : State α) (id : Nat) (call : Call α) (item : α) (other : Nat) :
    (state.store id call item).done other =
      if other = id then state.outcomes other ++ [.stored item] else state.done other := by
  rw [State.done, State.store_stages, Function.update_apply]
  split <;> rfl

theorem State.take_done (state : State α) (id : Nat) (call : Call α) (item : α) (rest : List α)
    (other : Nat) : (state.take id call item rest).done other =
      if other = id then state.outcomes other ++ [.got item] else state.done other := by
  rw [State.done, State.take_stages, Function.update_apply]
  split <;> rfl

/-- What one thread stored or took, in order. -/
def entries (log : List (Nat × α)) (id : Nat) : List α :=
  (log.filter fun entry => entry.1 = id).map Prod.snd

theorem entries_append (log : List (Nat × α)) (id : Nat) (item : α) (other : Nat) :
    entries (log ++ [(id, item)]) other =
      if other = id then entries log other ++ [item] else entries log other := by
  by_cases isThis : other = id
  · simp [entries, isThis]
  · simp [entries, isThis, Ne.symm isThis]

/-- What a thread inside knows of the content, and what its call tells. -/
def Knows (capacity : Nat) (content : List α) : Stage α → Prop
  | .ready call => call.goes capacity content = true
  | .leaving call .refused => call.goes capacity content = false
  | .leaving _ (.counted size) => size = content.length
  | _ => True

/-- What was stored is what was taken and what is there, in order; the records
are those of the calls. -/
structure Linear (capacity : Nat) (state : State α) : Prop where
  bound : state.content.length ≤ capacity
  order : state.pushed.map Prod.snd = state.popped.map Prod.snd ++ state.content
  stored : ∀ id, entries state.pushed id = (state.done id).filterMap Outcome.storedItem
  taken : ∀ id, entries state.popped id = (state.done id).filterMap Outcome.gotItem
  knows : ∀ id, Knows capacity state.content (state.stages id)

theorem linear_initial (capacity : Nat) : Linear capacity (initial : State α) where
  bound := Nat.zero_le _
  order := rfl
  stored := fun _ => rfl
  taken := fun _ => rfl
  knows := fun _ => trivial

theorem knows_of_outside {capacity : Nat} {content : List α} {stage : Stage α}
    (outside : stage.inside = false) : Knows capacity content stage := by
  cases stage with
  | locked call => cases outside
  | ready call => cases outside
  | leaving call outcome => cases outside
  | _ => trivial

/-- A step that leaves the content and the records alone. -/
theorem Linear.stay {capacity : Nat} {before after : State α} (linear : Linear capacity before)
    {id : Nat} {stage : Stage α} (stages : after.stages = Function.update before.stages id stage)
    (content : after.content = before.content) (pushed : after.pushed = before.pushed)
    (popped : after.popped = before.popped)
    (done : ∃ silent, after.done id = before.done id ++ silent ∧
      silent.filterMap Outcome.storedItem = [] ∧ silent.filterMap Outcome.gotItem = [])
    (others : ∀ other, other ≠ id → after.outcomes other = before.outcomes other)
    (knows : Knows capacity before.content stage) : Linear capacity after := by
  have elsewhere : ∀ other, other ≠ id → after.done other = before.done other := by
    intro other different
    rw [State.done, stages, Function.update_of_ne different, others other different]
    rfl
  obtain ⟨silent, done, noStored, noGot⟩ := done
  constructor
  · rw [content]
    exact linear.bound
  · rw [content, pushed, popped]
    exact linear.order
  · intro other
    rw [pushed, linear.stored]
    by_cases isThis : other = id
    · subst isThis
      rw [done, List.filterMap_append, noStored, List.append_nil]
    · rw [elsewhere other isThis]
  · intro other
    rw [popped, linear.taken]
    by_cases isThis : other = id
    · subst isThis
      rw [done, List.filterMap_append, noGot, List.append_nil]
    · rw [elsewhere other isThis]
  · intro other
    rw [stages, content]
    by_cases isThis : other = id
    · subst isThis
      rwa [Function.update_self]
    · rw [Function.update_of_ne isThis]
      exact linear.knows other

/-- The thread that changes the content is alone inside. -/
theorem Exclusive.others_outside {before : State α} (exclusive : Exclusive before) {id other : Nat}
    (inside : (before.stages id).inside = true) (different : other ≠ id) :
    (before.stages other).inside = false := by
  by_contra both
  have first := (exclusive id).mp inside
  have second := (exclusive other).mp (Bool.eq_true_of_not_eq_false both)
  rw [first] at second
  exact different (Option.some_inj.mp second).symm

/-- A call that still has to do its work has come to nothing yet. -/
theorem State.done_of_ready {state : State α} {id : Nat} {call : Call α}
    (stage : state.stages id = .ready call) : state.done id = state.outcomes id := by
  rw [State.done, stage]
  exact List.append_nil _

/-- After a change nobody else knows anything of the content. -/
theorem knows_changed {capacity : Nat} {before : State α} (exclusive : Exclusive before) {id : Nat}
    {call called : Call α} {outcome : Outcome α} (stage : before.stages id = .ready call)
    {content : List α} (own : Knows capacity content (.leaving called outcome)) (other : Nat) :
    Knows capacity content (Function.update before.stages id (.leaving called outcome) other) := by
  by_cases isThis : other = id
  · subst isThis
    rwa [Function.update_self]
  · rw [Function.update_of_ne isThis]
    exact knows_of_outside (exclusive.others_outside (by rw [stage]; rfl) isThis)

theorem room_of_goes {capacity : Nat} {content : List α} {call : Call α} {item : α}
    (isPush : call = .push item ∨ call = .tryPush item)
    (goes : call.goes capacity content = true) (bound : content.length ≤ capacity) :
    content.length < capacity := by
  cases isPush with
  | inl isPush =>
      rw [isPush, Call.goes, decide_eq_true_eq] at goes
      exact goes
  | inr isPush =>
      rw [isPush, Call.goes, Bool.not_eq_true', beq_eq_false_iff_ne] at goes
      omega

theorem Linear.stores {capacity : Nat} {before : State α} (linear : Linear capacity before)
    (exclusive : Exclusive before) {id : Nat} {call : Call α} {item : α}
    (stage : before.stages id = .ready call) (isPush : call = .push item ∨ call = .tryPush item) :
    Linear capacity (before.store id call item) := by
  have goes := linear.knows id
  rw [stage, Knows] at goes
  have room := room_of_goes isPush goes linear.bound
  have ready := State.done_of_ready stage
  constructor
  · simp only [State.store, List.length_append, List.length_singleton]
    omega
  · simp only [State.store, State.setStage, List.map_append, List.map_singleton, linear.order,
      List.append_assoc]
  · intro other
    rw [State.store_done, State.store, entries_append, linear.stored]
    split
    case isTrue isThis =>
      subst isThis
      rw [ready, List.filterMap_append]
      rfl
    case isFalse => rfl
  · intro other
    rw [State.store_done]
    simp only [State.store, State.setStage, linear.taken]
    split
    case isTrue isThis =>
      subst isThis
      rw [ready, List.filterMap_append]
      exact (List.append_nil _).symm
    case isFalse => rfl
  · exact knows_changed exclusive stage trivial

theorem Linear.takes {capacity : Nat} {before : State α} (linear : Linear capacity before)
    (exclusive : Exclusive before) {id : Nat} {call : Call α} {item : α} {rest : List α}
    (stage : before.stages id = .ready call) (front : before.content = item :: rest) :
    Linear capacity (before.take id call item rest) := by
  have bound := linear.bound
  rw [front, List.length_cons] at bound
  have ready := State.done_of_ready stage
  constructor
  · exact Nat.le_of_succ_le bound
  · simp only [State.take, State.setStage, linear.order, front, List.map_append,
      List.map_singleton, List.append_assoc, List.singleton_append]
  · intro other
    rw [State.take_done]
    simp only [State.take, State.setStage, linear.stored]
    split
    case isTrue isThis =>
      subst isThis
      rw [ready, List.filterMap_append]
      exact (List.append_nil _).symm
    case isFalse => rfl
  · intro other
    rw [State.take_done, State.take, entries_append, linear.taken]
    split
    case isTrue isThis =>
      subst isThis
      rw [ready, List.filterMap_append]
      rfl
    case isFalse => rfl
  · exact knows_changed exclusive stage trivial

theorem knows_notified {capacity : Nat} {content : List α} {stage : Stage α}
    {condition : Condition} (knows : Knows capacity content stage) :
    Knows capacity content (stage.notified condition) := by
  cases stage with
  | sleeping call =>
      simp only [Stage.notified]
      split <;> trivial
  | _ => exact knows

theorem Linear.notifyAll {capacity : Nat} {state : State α} (linear : Linear capacity state)
    (condition : Condition) : Linear capacity (state.notifyAll condition) := by
  have same : ∀ id, (state.notifyAll condition).done id = state.done id := by
    intro id
    rw [State.done, State.notifyAll_stages, Stage.outcome_notified]
    rfl
  constructor
  · exact linear.bound
  · exact linear.order
  · intro id
    rw [same]
    exact linear.stored id
  · intro id
    rw [same]
    exact linear.taken id
  · intro id
    exact knows_notified (linear.knows id)

theorem Linear.move {capacity : Nat} {before after : State α} {id : Nat}
    (linear : Linear capacity before) (exclusive : Exclusive before)
    (move : Move capacity before id after) : Linear capacity after := by
  cases move with
  | calls stage =>
      exact linear.stay rfl rfl rfl rfl ⟨[], by simp [State.done, State.setStage, stage,
        Stage.outcome]⟩ (fun _ _ => rfl) trivial
  | locks stage free =>
      exact linear.stay rfl rfl rfl rfl ⟨[], by simp [State.done, State.setStage, stage,
        Stage.outcome]⟩ (fun _ _ => rfl) trivial
  | goes stage goes =>
      exact linear.stay rfl rfl rfl rfl ⟨[], by simp [State.done, State.setStage, stage,
        Stage.outcome]⟩ (fun _ _ => rfl) goes
  | sleeps stage =>
      exact linear.stay rfl rfl rfl rfl ⟨[], by simp [State.done, State.setStage, stage,
        Stage.outcome]⟩ (fun _ _ => rfl) trivial
  | refuses stage blocked waits =>
      exact linear.stay rfl rfl rfl rfl ⟨[.refused], by simp [State.done, State.setStage, stage,
        Stage.outcome, Outcome.storedItem, Outcome.gotItem]⟩ (fun _ _ => rfl) blocked
  | stores stage isPush => exact linear.stores exclusive stage isPush
  | takes stage isPop front => exact linear.takes exclusive stage front
  | counts stage =>
      exact linear.stay rfl rfl rfl rfl ⟨[.counted before.content.length], by simp [State.done,
        State.setStage, stage, Stage.outcome, Outcome.storedItem, Outcome.gotItem]⟩
        (fun _ _ => rfl) rfl
  | leaves stage silent =>
      exact linear.stay rfl rfl rfl rfl ⟨[], by simp [State.done, State.finish, State.setStage,
        stage, Stage.outcome]⟩ (fun _ different => Function.update_of_ne different _ _) trivial
  | unlocks stage notifies =>
      exact linear.stay rfl rfl rfl rfl ⟨[], by simp [State.done, State.setStage, stage,
        Stage.outcome]⟩ (fun _ _ => rfl) trivial
  | notifies stage notifies =>
      exact (linear.notifyAll _).stay rfl rfl rfl rfl ⟨[], by simp [State.done, State.finish,
        State.setStage, State.notifyAll, Stage.notified, stage, Stage.outcome]⟩
        (fun _ different => Function.update_of_ne different _ _) trivial
  | wakes stage =>
      exact linear.stay rfl rfl rfl rfl ⟨[], by simp [State.done, State.setStage, stage,
        Stage.outcome]⟩ (fun _ _ => rfl) trivial

/-! ### No wake-up is lost -/

/-- A thread that sleeps although its predicate holds is about to be woken. -/
def Alert (capacity : Nat) (state : State α) : Prop :=
  ∀ id call, state.stages id = .sleeping call → ∃ condition, call.waitsOn = some condition ∧
    (call.goes capacity state.content = true →
      ∃ other, ∃ outcome ∈ (state.stages other).outcome, outcome.notifies = some condition)

theorem alert_initial (capacity : Nat) : Alert capacity (initial : State α) := by
  intro id call asleep
  cases asleep

/-- A step that leaves the content alone and forgets no notification. -/
theorem Alert.stay {capacity : Nat} {before after : State α} (alert : Alert capacity before)
    {id : Nat} {stage : Stage α} (stages : after.stages = Function.update before.stages id stage)
    (content : after.content = before.content)
    (tells : ∀ outcome ∈ (before.stages id).outcome, outcome.notifies.isSome = true →
      outcome ∈ stage.outcome)
    (asleep : ∀ call, stage = .sleeping call → ∃ condition, call.waitsOn = some condition ∧
      call.goes capacity before.content = false) : Alert capacity after := by
  intro sleeper call sleeping
  rw [stages] at sleeping ⊢
  rw [content]
  by_cases isThis : sleeper = id
  · subst isThis
    rw [Function.update_self] at sleeping
    rcases asleep call sleeping with ⟨condition, waits, blocked⟩
    refine ⟨condition, waits, fun goes => ?_⟩
    rw [blocked] at goes
    cases goes
  · rw [Function.update_of_ne isThis] at sleeping
    rcases alert sleeper call sleeping with ⟨condition, waits, coming⟩
    refine ⟨condition, waits, fun goes => ?_⟩
    rcases coming goes with ⟨other, outcome, member, notifies⟩
    refine ⟨other, outcome, ?_, notifies⟩
    by_cases isThis : other = id
    · subst isThis
      rw [Function.update_self]
      exact tells outcome member (by rw [notifies]; rfl)
    · rwa [Function.update_of_ne isThis]

/-- A change of the content tells the other side, and opens nothing for its own. -/
theorem Alert.changes {capacity : Nat} {before after : State α} (alert : Alert capacity before)
    {id : Nat} {call : Call α} {outcome : Outcome α} {condition : Condition}
    (stages : after.stages = Function.update before.stages id (.leaving call outcome))
    (stage : before.stages id = .ready call) (notifies : outcome.notifies = some condition)
    (own : ∀ (sleeper : Call α) (waited : Condition), sleeper.waitsOn = some waited →
      waited ≠ condition → sleeper.goes capacity after.content = true →
      sleeper.goes capacity before.content = true) :
    Alert capacity after := by
  intro sleeper blocked sleeping
  rw [stages] at sleeping ⊢
  have different : sleeper ≠ id := by
    intro isThis
    rw [isThis, Function.update_self] at sleeping
    cases sleeping
  rw [Function.update_of_ne different] at sleeping
  rcases alert sleeper blocked sleeping with ⟨waited, waits, coming⟩
  refine ⟨waited, waits, fun goes => ?_⟩
  by_cases same : waited = condition
  · subst same
    refine ⟨id, outcome, ?_, notifies⟩
    rw [Function.update_self]
    exact List.mem_singleton_self _
  · have before := own blocked waited waits same goes
    rcases coming before with ⟨other, pending, member, notifies⟩
    refine ⟨other, pending, ?_, notifies⟩
    have notThis : other ≠ id := by
      intro isThis
      rw [isThis, stage] at member
      cases member
    rwa [Function.update_of_ne notThis]

/-- An item more makes no room. -/
theorem goes_of_stored {capacity : Nat} {content : List α} {item : α} (call : Call α)
    (waited : Condition) (waits : call.waitsOn = some waited) (other : waited ≠ .notEmpty)
    (goes : call.goes capacity (content ++ [item]) = true) :
    call.goes capacity content = true := by
  cases call with
  | push item =>
      rw [Call.goes, decide_eq_true_eq, List.length_append] at goes
      rw [Call.goes, decide_eq_true_eq]
      omega
  | pop =>
      cases waits
      exact absurd rfl other
  | tryPush item => cases waits
  | tryPop => cases waits
  | size => cases waits

/-- An item less is nothing to take. -/
theorem goes_of_taken {capacity : Nat} {content : List α} {item : α} (call : Call α)
    (waited : Condition) (waits : call.waitsOn = some waited) (other : waited ≠ .notFull)
    (goes : call.goes capacity content = true) :
    call.goes capacity (item :: content) = true := by
  cases call with
  | push item =>
      cases waits
      exact absurd rfl other
  | pop => rfl
  | tryPush item => cases waits
  | tryPop => cases waits
  | size => cases waits

/-- The notification leaves nobody asleep on its condition variable. -/
theorem Alert.notifies {capacity : Nat} {before : State α} (alert : Alert capacity before)
    {id : Nat} {outcome : Outcome α} {condition : Condition}
    (stage : before.stages id = .notifying outcome)
    (notifies : outcome.notifies = some condition) :
    Alert capacity ((before.notifyAll condition).finish id outcome) := by
  intro sleeper call sleeping
  have different : sleeper ≠ id := by
    intro isThis
    rw [isThis, State.finish_stages, Function.update_self] at sleeping
    cases sleeping
  rw [State.finish_stages, Function.update_of_ne different, State.notifyAll_stages] at sleeping
  have slept : before.stages sleeper = .sleeping call ∧ call.waitsOn ≠ some condition := by
    cases was : before.stages sleeper with
    | sleeping called =>
        rw [was, Stage.notified] at sleeping
        split at sleeping
        · cases sleeping
        case isFalse elsewhere =>
          cases sleeping
          exact ⟨rfl, elsewhere⟩
    | _ =>
        rw [was] at sleeping
        cases sleeping
  rcases alert sleeper call slept.1 with ⟨waited, waits, coming⟩
  refine ⟨waited, waits, fun goes => ?_⟩
  rcases coming goes with ⟨other, pending, member, tells⟩
  refine ⟨other, pending, ?_, tells⟩
  have notThis : other ≠ id := by
    intro isThis
    rw [isThis, stage] at member
    rw [List.mem_singleton.mp member, notifies] at tells
    exact slept.2 (waits.trans tells.symm)
  rwa [State.finish_stages, Function.update_of_ne notThis, State.notifyAll_stages,
    Stage.outcome_notified]

theorem Alert.move {capacity : Nat} {before after : State α} {id : Nat}
    (alert : Alert capacity before) (move : Move capacity before id after) :
    Alert capacity after := by
  have nothing : ∀ {stage : Stage α} {list : List (Outcome α)}, before.stages id = stage →
      stage.outcome = [] → ∀ outcome ∈ (before.stages id).outcome,
        outcome.notifies.isSome = true → outcome ∈ list := by
    intro stage list isStage noOutcome outcome member
    rw [isStage, noOutcome] at member
    cases member
  cases move with
  | calls stage => exact alert.stay rfl rfl (nothing stage rfl) nofun
  | locks stage free => exact alert.stay rfl rfl (nothing stage rfl) nofun
  | goes stage goes => exact alert.stay rfl rfl (nothing stage rfl) nofun
  | sleeps stage blocked waits =>
      refine alert.stay rfl rfl (nothing stage rfl) ?_
      intro call asleep
      cases asleep
      exact ⟨_, waits, blocked⟩
  | refuses stage blocked waits => exact alert.stay rfl rfl (nothing stage rfl) nofun
  | stores stage isPush => exact alert.changes rfl stage rfl goes_of_stored
  | takes stage isPop front =>
      refine alert.changes rfl stage rfl ?_
      intro call waited waits other goes
      rw [front]
      exact goes_of_taken call waited waits other goes
  | counts stage => exact alert.stay rfl rfl (nothing stage rfl) nofun
  | leaves stage silent =>
      refine alert.stay rfl rfl ?_ nofun
      intro outcome member tells
      rw [stage] at member
      rw [List.mem_singleton.mp member, silent] at tells
      cases tells
  | unlocks stage notifies =>
      refine alert.stay rfl rfl ?_ nofun
      intro outcome member tells
      rwa [stage] at member
  | notifies stage notifies => exact alert.notifies stage notifies
  | wakes stage => exact alert.stay rfl rfl (nothing stage rfl) nofun

/-- A thread that is about to notify has something to tell. -/
def Armed (state : State α) : Prop :=
  ∀ id outcome, state.stages id = .notifying outcome → outcome.notifies.isSome = true

theorem Armed.stay {before after : State α} (armed : Armed before) {id : Nat} {stage : Stage α}
    (stages : after.stages = Function.update before.stages id stage)
    (own : ∀ outcome, stage = .notifying outcome → outcome.notifies.isSome = true) :
    Armed after := by
  intro other outcome notifying
  rw [stages] at notifying
  by_cases isThis : other = id
  · subst isThis
    rw [Function.update_self] at notifying
    exact own outcome notifying
  · rw [Function.update_of_ne isThis] at notifying
    exact armed other outcome notifying

theorem Armed.notifyAll {state : State α} (armed : Armed state) (condition : Condition) :
    Armed (state.notifyAll condition) := by
  intro id outcome notifying
  rw [State.notifyAll_stages] at notifying
  cases stage : state.stages id with
  | notifying tells =>
      rw [stage] at notifying
      cases notifying
      exact armed id outcome stage
  | sleeping call =>
      rw [stage, Stage.notified] at notifying
      split at notifying <;> cases notifying
  | _ =>
      rw [stage] at notifying
      cases notifying

theorem Armed.move {capacity : Nat} {before after : State α} {id : Nat} (armed : Armed before)
    (move : Move capacity before id after) : Armed after := by
  cases move with
  | unlocks stage notifies =>
      refine armed.stay rfl ?_
      intro outcome isOutcome
      cases isOutcome
      rw [notifies]
      rfl
  | notifies stage notifies => exact (armed.notifyAll _).stay rfl nofun
  | _ => exact armed.stay rfl nofun

/-! ### Every run -/

/-- What every run keeps. -/
structure Inv (capacity : Nat) (state : State α) : Prop where
  exclusive : Exclusive state
  linear : Linear capacity state
  alert : Alert capacity state
  armed : Armed state

theorem inv_initial (capacity : Nat) : Inv capacity (initial : State α) where
  exclusive := exclusive_initial
  linear := linear_initial capacity
  alert := alert_initial capacity
  armed := nofun

theorem step_inv {capacity : Nat} {before after : State α} {action : Action α}
    (inv : Inv capacity before) (stepped : step capacity before action = some after) :
    Inv capacity after where
  exclusive := inv.exclusive.move (step_move stepped)
  linear := inv.linear.move inv.exclusive (step_move stepped)
  alert := inv.alert.move (step_move stepped)
  armed := inv.armed.move (step_move stepped)

theorem run_inv {capacity : Nat} {before after : State α} {actions : List (Action α)}
    (inv : Inv capacity before) (ran : Machine.run (step capacity) before actions = some after) :
    Inv capacity after :=
  Machine.run_invariant (Inv capacity) step_inv inv ran

/-- Whatever the threads do and however they interleave: no two of them are in
the mutex section, the queue never has more than its capacity, the items taken
and the items there are the items stored, in order, and what every thread's
calls stored and got is what the queue took from it and gave to it. -/
theorem queue_linear {capacity : Nat} {actions : List (Action α)} {state : State α}
    (ran : Machine.run (step capacity) initial actions = some state) :
    (∀ first second, (state.stages first).inside = true → (state.stages second).inside = true →
      first = second) ∧
    state.content.length ≤ capacity ∧
    state.pushed.map Prod.snd = state.popped.map Prod.snd ++ state.content ∧
    ∀ id, entries state.pushed id = (state.done id).filterMap Outcome.storedItem ∧
      entries state.popped id = (state.done id).filterMap Outcome.gotItem := by
  have inv := run_inv (inv_initial capacity) ran
  refine ⟨?_, inv.linear.bound, inv.linear.order, fun id => ⟨inv.linear.stored id,
    inv.linear.taken id⟩⟩
  intro first second insideFirst insideSecond
  by_contra different
  have outside := inv.exclusive.others_outside insideSecond different
  rw [insideFirst] at outside
  cases outside

/-- A queue of one place: the second push waits until the other thread has
popped. -/
def sampleActions : List (Action Nat) :=
  [.call 0 (.push 7), .lock 0, .check 0, .change 0, .unlock 0, .notify 0,
    .call 0 (.push 8), .call 1 .pop, .lock 0, .check 0, .lock 1, .check 1, .change 1, .unlock 1,
    .notify 1, .lock 0, .check 0, .change 0, .unlock 0]

theorem queue_linear_sample :
    ∃ state, Machine.run (step 1) initial sampleActions = some state ∧
      state.popped = [(1, 7)] ∧ state.content = [8] ∧
      entries state.pushed 0 = (state.done 0).filterMap Outcome.storedItem := by
  have possible : (Machine.run (step 1) initial sampleActions).isSome := by decide
  rcases Option.isSome_iff_exists.mp possible with ⟨state, ran⟩
  have popped : (Machine.run (step 1) initial sampleActions).map State.popped =
      some [(1, 7)] := by decide
  have content : (Machine.run (step 1) initial sampleActions).map State.content =
      some [8] := by decide
  rw [ran, Option.map_some, Option.some_inj] at popped content
  have linear := queue_linear ran
  exact ⟨state, ran, popped, content, (linear.2.2.2 0).1⟩

/-- Steps of the queue itself: neither a new call nor a wake-up without a
notification. -/
def Action.quiet : Action α → Bool
  | .call _ _ => false
  | .wake _ => false
  | _ => true

/-- Some thread inside can go on. -/
theorem Inv.inside_moves {capacity : Nat} {state : State α} (inv : Inv capacity state) {id : Nat}
    (inside : (state.stages id).inside = true) :
    ∃ action : Action α, action.quiet = true ∧ step capacity state action ≠ none := by
  cases stage : state.stages id with
  | locked call =>
      refine ⟨.check id, rfl, ?_⟩
      simp only [step, check, stage]
      split
      · nofun
      · split <;> nofun
  | ready call =>
      refine ⟨.change id, rfl, ?_⟩
      have goes := inv.linear.knows id
      rw [stage, Knows] at goes
      cases call with
      | push item => simp [step, change, stage]
      | tryPush item => simp [step, change, stage]
      | size => simp [step, change, stage]
      | pop =>
          cases content : state.content with
          | nil => simp [Call.goes, content] at goes
          | cons item rest => simp [step, change, stage, content]
      | tryPop =>
          cases content : state.content with
          | nil => simp [Call.goes, content] at goes
          | cons item rest => simp [step, change, stage, content]
  | leaving call outcome =>
      refine ⟨.unlock id, rfl, ?_⟩
      simp only [step, unlock, stage]
      split <;> nofun
  | _ =>
      rw [stage] at inside
      cases inside

/-- A thread that is about to notify can do so. -/
theorem Inv.notifying_moves {capacity : Nat} {state : State α} (inv : Inv capacity state) {id : Nat}
    {outcome : Outcome α} (stage : state.stages id = .notifying outcome) :
    ∃ action : Action α, action.quiet = true ∧ step capacity state action ≠ none := by
  rcases Option.isSome_iff_exists.mp (inv.armed id outcome stage) with ⟨condition, notifies⟩
  refine ⟨.notify id, rfl, ?_⟩
  simp [step, notify, stage, notifies]

/-- When the queue itself can do nothing more, the threads that have not
returned sleep: in `push` on a full queue, or in `pop` on an empty one. -/
theorem Inv.blocked {capacity : Nat} {state : State α} (inv : Inv capacity state)
    (stuck : ∀ action : Action α, action.quiet = true → step capacity state action = none) :
    ∀ id, state.stages id = .idle ∨
      (∃ item, state.stages id = .sleeping (.push item) ∧ state.content.length = capacity) ∨
      (state.stages id = .sleeping .pop ∧ state.content = []) := by
  have outside : ∀ id, (state.stages id).inside = false := by
    intro id
    by_contra inside
    rcases inv.inside_moves (Bool.eq_true_of_not_eq_false inside) with ⟨action, quiet, moves⟩
    exact moves (stuck action quiet)
  have silent : ∀ id outcome, state.stages id ≠ .notifying outcome := by
    intro id outcome stage
    rcases inv.notifying_moves stage with ⟨action, quiet, moves⟩
    exact moves (stuck action quiet)
  have free : state.mutex = none := by
    cases mutex : state.mutex with
    | none => rfl
    | some id =>
        have inside := (inv.exclusive id).mpr mutex
        rw [outside id] at inside
        cases inside
  intro id
  cases stage : state.stages id with
  | idle => exact .inl rfl
  | locking call =>
      have locks := stuck (.lock id) rfl
      simp [step, lock, stage, free] at locks
  | notifying outcome => exact absurd stage (silent id outcome)
  | sleeping call =>
      apply Or.inr
      rcases inv.alert id call stage with ⟨condition, waits, coming⟩
      have blocked : call.goes capacity state.content = false := by
        by_contra goes
        rcases coming (Bool.eq_true_of_not_eq_false goes) with ⟨other, outcome, member, -⟩
        have away := outside other
        cases otherStage : state.stages other with
        | leaving call outcome =>
            rw [otherStage] at away
            cases away
        | notifying outcome => exact silent other outcome otherStage
        | _ =>
            rw [otherStage] at member
            cases member
      have bound := inv.linear.bound
      cases call with
      | push item =>
          rw [Call.goes, decide_eq_false_iff_not] at blocked
          exact .inl ⟨item, rfl, by omega⟩
      | pop =>
          rw [Call.goes, Bool.not_eq_false', List.isEmpty_iff] at blocked
          exact .inr ⟨rfl, blocked⟩
      | tryPush item => cases waits
      | tryPop => cases waits
      | size => cases waits
  | locked call =>
      have away := outside id
      rw [stage] at away
      cases away
  | ready call =>
      have away := outside id
      rw [stage] at away
      cases away
  | leaving call outcome =>
      have away := outside id
      rw [stage] at away
      cases away

/-! ### Calls come to an end -/

/-- How many steps a call may still take, with those it may cause by waking
others counted in. -/
def Stage.weight (count : Nat) : Stage α → Nat
  | .idle => 0
  | .sleeping _ => 5 * count
  | .notifying _ => 5 * count + 1
  | .leaving _ _ => 5 * count + 2
  | .ready _ => 5 * count + 3
  | .locked _ => 5 * count + 4
  | .locking _ => 5 * count + 5

/-- The weight of the first threads together. -/
def total (count : Nat) (stages : Nat → Stage α) : Nat :=
  ∑ id ∈ Finset.range count, (stages id).weight count

theorem total_update {count id : Nat} (known : id < count) (stages : Nat → Stage α)
    (stage : Stage α) : total count (Function.update stages id stage) + (stages id).weight count =
      total count stages + stage.weight count :=
  Machine.totalWeight_update known (Stage.weight count) stages stage

theorem Stage.weight_notified (count : Nat) (stage : Stage α) (condition : Condition) :
    (stage.notified condition).weight count ≤ stage.weight count + 5 := by
  cases stage with
  | sleeping call =>
      simp only [Stage.notified]
      split
      · exact le_rfl
      · exact Nat.le_add_right _ _
  | _ => exact Nat.le_add_right _ _

theorem total_notified (count : Nat) (stages : Nat → Stage α) (condition : Condition) :
    total count (fun id => (stages id).notified condition) ≤ total count stages + 5 * count :=
  Machine.totalWeight_le_add (fun stage : Stage α => stage.weight_notified count condition)
    count stages

/-- Only the first threads have called. -/
def Within (count : Nat) (state : State α) : Prop :=
  ∀ id, count ≤ id → state.stages id = .idle

theorem Within.known {count : Nat} {state : State α} (within : Within count state) {id : Nat}
    {stage : Stage α} (isStage : state.stages id = stage) (busy : stage ≠ .idle) : id < count := by
  by_contra beyond
  exact busy (isStage.symm.trans (within id (by omega)))

theorem Within.stay {count : Nat} {before after : State α} (within : Within count before) {id : Nat}
    {stage : Stage α} (stages : after.stages = Function.update before.stages id stage)
    (known : id < count) : Within count after := by
  intro other beyond
  rw [stages, Function.update_of_ne (by omega)]
  exact within other beyond

theorem Within.notifyAll {count : Nat} {state : State α} (within : Within count state)
    (condition : Condition) : Within count (state.notifyAll condition) := by
  intro other beyond
  rw [State.notifyAll_stages, within other beyond]
  rfl

theorem Within.mono {count larger : Nat} {state : State α} (within : Within count state)
    (atMost : count ≤ larger) : Within larger state :=
  fun id beyond => within id (atMost.trans beyond)

theorem Within.move {capacity count : Nat} {before after : State α} {id : Nat}
    (within : Within count before) (known : id < count) (move : Move capacity before id after) :
    Within count after := by
  cases move with
  | notifies stage notifies => exact (within.notifyAll _).stay rfl known
  | _ => exact within.stay rfl known

/-- Finitely many threads take part in a run. -/
theorem exists_within {capacity : Nat} {actions : List (Action α)} {state : State α}
    (ran : Machine.run (step capacity) initial actions = some state) :
    ∃ count, Within count state := by
  refine Machine.run_invariant (fun state => ∃ count, Within count state) ?_ ?_ ran
  · intro before after action known stepped
    rcases known with ⟨count, within⟩
    exact ⟨max count (action.thread + 1), (within.mono (le_max_left _ _)).move
      (Nat.lt_of_succ_le (le_max_right _ _)) (step_move stepped)⟩
  · exact ⟨0, fun _ _ => rfl⟩

/-- The queue's own steps are those of threads that are in a call and awake. -/
theorem awake_of_quiet {capacity : Nat} {before after : State α} {action : Action α}
    (quiet : action.quiet = true) (stepped : step capacity before action = some after) :
    before.stages action.thread ≠ .idle ∧
      ∀ call, before.stages action.thread ≠ .sleeping call := by
  constructor
  · intro stage
    cases action with
    | call id call => cases quiet
    | wake id => cases quiet
    | lock id => simp [step, lock, show before.stages id = .idle from stage] at stepped
    | check id => simp [step, check, show before.stages id = .idle from stage] at stepped
    | change id => simp [step, change, show before.stages id = .idle from stage] at stepped
    | unlock id => simp [step, unlock, show before.stages id = .idle from stage] at stepped
    | notify id => simp [step, notify, show before.stages id = .idle from stage] at stepped
  · intro call stage
    cases action with
    | call id call => cases quiet
    | wake id => cases quiet
    | lock id => simp [step, lock, show before.stages id = .sleeping call from stage] at stepped
    | check id => simp [step, check, show before.stages id = .sleeping call from stage] at stepped
    | change id =>
        simp [step, change, show before.stages id = .sleeping call from stage] at stepped
    | unlock id =>
        simp [step, unlock, show before.stages id = .sleeping call from stage] at stepped
    | notify id =>
        simp [step, notify, show before.stages id = .sleeping call from stage] at stepped

/-- A step that changes only the stage of its thread lowers the total when it
lowers the weight of the stage. -/
theorem total_lt {count id : Nat} (known : id < count) {stages : Nat → Stage α}
    {old stage : Stage α} (isStage : stages id = old)
    (lower : stage.weight count < old.weight count) :
    total count (Function.update stages id stage) < total count stages := by
  have updated := total_update known stages stage
  rw [isStage] at updated
  omega

theorem quiet_lowers {capacity count : Nat} {before after : State α} {action : Action α}
    (within : Within count before) (quiet : action.quiet = true)
    (stepped : step capacity before action = some after) :
    total count after.stages < total count before.stages := by
  have awake := awake_of_quiet quiet stepped
  have known : action.thread < count := within.known rfl awake.1
  cases step_move stepped with
  | calls stage => exact absurd stage awake.1
  | wakes stage => exact absurd stage (awake.2 _)
  | @notifies outcome condition stage notifies =>
      have woken := total_notified count before.stages condition
      have stageThen : (before.notifyAll condition).stages action.thread = .notifying outcome := by
        rw [State.notifyAll_stages, stage]
        rfl
      have updated := total_update known (before.notifyAll condition).stages .idle
      rw [stageThen, Stage.weight, Stage.weight] at updated
      have same : (before.notifyAll condition).stages =
          fun id => (before.stages id).notified condition := rfl
      rw [same] at updated
      rw [State.finish_stages, same]
      omega
  | locks stage => exact total_lt known stage (by simp [Stage.weight])
  | goes stage => exact total_lt known stage (by simp [Stage.weight])
  | sleeps stage => exact total_lt known stage (by simp [Stage.weight])
  | refuses stage => exact total_lt known stage (by simp [Stage.weight])
  | stores stage => exact total_lt known stage (by simp [Stage.weight])
  | takes stage => exact total_lt known stage (by simp [Stage.weight])
  | counts stage => exact total_lt known stage (by simp [Stage.weight])
  | leaves stage => exact total_lt known stage (by simp [Stage.weight])
  | unlocks stage => exact total_lt known stage (by simp [Stage.weight])

/-- The queue never hangs: from any state that a run reaches, it can take only
so many steps without a new call, however the threads are scheduled, and when it
can take none, every thread has returned but those that sleep in `push` on a
full queue or in `pop` on an empty one. -/
theorem queue_settles {capacity : Nat} {actions : List (Action α)} {state : State α}
    (ran : Machine.run (step capacity) initial actions = some state) :
    (∃ bound, ∀ more later, (∀ action ∈ more, action.quiet = true) →
      Machine.run (step capacity) state more = some later → more.length ≤ bound) ∧
    ∀ more later, Machine.run (step capacity) state more = some later →
      (∀ action : Action α, action.quiet = true → step capacity later action = none) →
      ∀ id, later.stages id = .idle ∨
        (∃ item, later.stages id = .sleeping (.push item) ∧ later.content.length = capacity) ∨
        (later.stages id = .sleeping .pop ∧ later.content = []) := by
  constructor
  · rcases exists_within ran with ⟨count, within⟩
    refine ⟨total count state.stages, fun more later all ranMore => ?_⟩
    have length := Machine.run_length_le (Within count) (fun state => total count state.stages)
      (fun within quiet stepped => within.move
        (within.known rfl (awake_of_quiet quiet stepped).1) (step_move stepped))
      quiet_lowers within all ranMore
    omega
  · intro more later ranMore stuck
    exact (run_inv (run_inv (inv_initial capacity) ran) ranMore).blocked stuck

/-- The first push returns, and the other thread comes to push on the full queue. -/
def sampleSettling : List (Action Nat) :=
  [.notify 0, .call 1 (.push 9), .lock 1, .check 1]

theorem queue_settles_sample :
    ∃ state later, Machine.run (step 1) initial sampleActions = some state ∧
      (∃ bound, ∀ more later, (∀ action ∈ more, action.quiet = true) →
        Machine.run (step 1) state more = some later → more.length ≤ bound) ∧
      Machine.run (step 1) state sampleSettling = some later ∧
      ∀ id, later.stages id = .idle ∨
        (∃ item, later.stages id = .sleeping (.push item) ∧ later.content.length = 1) ∨
        (later.stages id = .sleeping .pop ∧ later.content = []) := by
  obtain ⟨state, later, ran, ranMore, rest⟩ : ∃ state later,
      Machine.run (step 1) initial sampleActions = some state ∧
      Machine.run (step 1) state sampleSettling = some later ∧
      ∀ id, later.stages id = .idle ∨ ∃ call, later.stages id = .sleeping call :=
    ⟨_, _, rfl, rfl, fun
      | 0 => .inl rfl
      | 1 => .inr ⟨_, rfl⟩
      | _ + 2 => .inl rfl⟩
  refine ⟨state, later, ran, (queue_settles ran).1, ranMore,
    (queue_settles ran).2 sampleSettling later ranMore fun action quiet => ?_⟩
  by_contra moves
  obtain ⟨after, stepped⟩ := Option.ne_none_iff_exists'.mp moves
  obtain ⟨notIdle, notAsleep⟩ := awake_of_quiet quiet stepped
  rcases rest action.thread with idle | ⟨call, sleeping⟩
  · exact notIdle idle
  · exact notAsleep call sleeping

end Dift.Supply.BlockingQueue
