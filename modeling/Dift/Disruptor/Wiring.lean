import Dift.Foundation.Machine

/-!
Owns how a disruptor is wired: `handleEventsWith`, `after`, the groups they return
with `then` and `And`, and `start`, over the `ConsumerRepository`. A processor's
sequence goes by the number of the processor. What results is which processors the
barrier of each one tracks, and which sequences gate the ring buffer.
-/

namespace Dift.Disruptor

open Dift.Foundation

/-- The sequences that the processor's barrier tracks, and whether no barrier tracks
its own. -/
structure EventProcessorInfo (η : Type*) where
  handler : η
  barrier : List Nat
  isEndOfChain : Bool
deriving DecidableEq, Repr

def EventProcessorInfo.markAsUsedInBarrier {η : Type*} (info : EventProcessorInfo η) :
    EventProcessorInfo η :=
  { info with isEndOfChain := false }

namespace Wiring

/-- The repository's processors, the groups that were returned, and the sequences that
the ring buffer is gated on. -/
structure State (η : Type*) where
  consumers : List (EventProcessorInfo η)
  groups : List (List Nat)
  gating : List Nat
  started : Bool
deriving DecidableEq, Repr

variable {η : Type*}

def initial : State η := ⟨[], [], [], false⟩

/-! ### The repository -/

def unMarkEventProcessorsAsEndOfChain (consumers : List (EventProcessorInfo η))
    (barrier : List Nat) : List (EventProcessorInfo η) :=
  barrier.foldl (fun marked id => marked.modify id EventProcessorInfo.markAsUsedInBarrier)
    consumers

/-- With `includeStopped`. -/
def getLastSequenceInChain (consumers : List (EventProcessorInfo η)) : List Nat :=
  (List.range consumers.length).filter fun id =>
    consumers[id]?.any EventProcessorInfo.isEndOfChain

/-- The processor that was last added for a handler. -/
def getSequenceFor [DecidableEq η] (consumers : List (EventProcessorInfo η)) (handler : η) :
    Option Nat :=
  (List.range consumers.length).reverse.find? fun id =>
    consumers[id]?.any fun info => info.handler = handler

/-! ### The calls -/

/-- Groups go by the order in which they were returned. -/
inductive Action (η : Type*) where
  | handleEventsWith (handlers : List η)
  | then (group : Nat) (handlers : List η)
  | and (group other : Nat)
  | after (handlers : List η)
  | start
deriving DecidableEq, Repr

/-- All new processors share a barrier. -/
def createEventProcessors (state : State η) (barrier : List Nat) (handlers : List η) :
    Option (State η) :=
  if state.started then none
  else
    let consumers := state.consumers ++ handlers.map fun handler => ⟨handler, barrier, true⟩
    some { state with
      consumers :=
        if handlers = [] then consumers
        else unMarkEventProcessorsAsEndOfChain consumers barrier
      groups := state.groups ++ [List.range' state.consumers.length handlers.length] }

/-- A call that throws is not a step, but for `start`, which registers the gating
sequences before it looks whether it was called before. -/
def step [DecidableEq η] (state : State η) : Action η → Option (State η)
  | .handleEventsWith handlers => createEventProcessors state [] handlers
  | .then group handlers =>
      state.groups[group]?.bind fun barrier => createEventProcessors state barrier handlers
  | .and group other =>
      state.groups[group]?.bind fun sequences => state.groups[other]?.map fun more =>
        { state with groups := state.groups ++ [sequences ++ more] }
  | .after handlers =>
      (handlers.mapM (getSequenceFor state.consumers)).map fun sequences =>
        { state with groups := state.groups ++ [sequences] }
  | .start =>
      some { state with
        gating := state.gating ++ getLastSequenceInChain state.consumers, started := true }

/-! ### What the calls keep -/

/-- The barrier of a processor tracks a sequence. -/
def State.Tracks (state : State η) (later id : Nat) : Prop :=
  ∃ info, state.consumers[later]? = some info ∧ id ∈ info.barrier

theorem State.Tracks.lt_length {state : State η} {later id : Nat} (tracks : state.Tracks later id) :
    later < state.consumers.length := by
  obtain ⟨info, isInfo, -⟩ := tracks
  exact (List.getElem?_eq_some_iff.mp isInfo).1

/-- Barriers track earlier processors; an end of a chain is what no barrier tracks, and
`start` gates the ring buffer on the ends. -/
structure Wired (state : State η) : Prop where
  earlier : ∀ {later id}, state.Tracks later id → id < later
  groups : ∀ group ∈ state.groups, ∀ id ∈ group, id < state.consumers.length
  ends : ∀ {id info}, state.consumers[id]? = some info →
    (info.isEndOfChain = false ↔ ∃ later, state.Tracks later id)
  gating : ∀ id, id ∈ state.gating ↔ state.started = true ∧ id < state.consumers.length ∧
    ∀ later, ¬ state.Tracks later id

theorem wired_initial : Wired (initial : State η) where
  earlier := by
    intro later id tracks
    exact absurd tracks.lt_length (Nat.not_lt_zero _)
  groups := fun _ member => absurd member List.not_mem_nil
  ends := by
    intro id info isInfo
    cases isInfo
  gating := by
    intro id
    constructor
    · intro member
      exact absurd member List.not_mem_nil
    · intro started
      cases started.1

theorem getElem?_unMark (consumers : List (EventProcessorInfo η)) (barrier : List Nat) (id : Nat) :
    (unMarkEventProcessorsAsEndOfChain consumers barrier)[id]? =
      consumers[id]?.map fun info =>
        if id ∈ barrier then info.markAsUsedInBarrier else info := by
  induction barrier generalizing consumers with
  | nil =>
      rw [unMarkEventProcessorsAsEndOfChain, List.foldl_nil]
      simp
  | cons first rest inductionHypothesis =>
      have step := inductionHypothesis
        (consumers.modify first EventProcessorInfo.markAsUsedInBarrier)
      rw [unMarkEventProcessorsAsEndOfChain, List.foldl_cons]
      refine step.trans ?_
      rw [List.getElem?_modify, Option.map_eq_map, Option.map_map]
      congr 1
      funext info
      by_cases isFirst : first = id
      · simp [isFirst, EventProcessorInfo.markAsUsedInBarrier]
      · have other : id ≠ first := fun same => isFirst same.symm
        simp [isFirst, other]

theorem length_unMark (consumers : List (EventProcessorInfo η)) (barrier : List Nat) :
    (unMarkEventProcessorsAsEndOfChain consumers barrier).length = consumers.length := by
  induction barrier generalizing consumers with
  | nil => rfl
  | cons first rest inductionHypothesis =>
      rw [unMarkEventProcessorsAsEndOfChain, List.foldl_cons]
      exact (inductionHypothesis _).trans (List.length_modify _ _ _)

/-- What `createEventProcessors` leaves behind. -/
structure Created (before after : State η) (barrier : List Nat) (handlers : List η) : Prop where
  notStarted : before.started = false
  started : after.started = false
  gating : after.gating = before.gating
  groups : after.groups =
    before.groups ++ [List.range' before.consumers.length handlers.length]
  length : after.consumers.length = before.consumers.length + handlers.length
  old : ∀ id < before.consumers.length, after.consumers[id]? =
    before.consumers[id]?.map fun info =>
      if handlers ≠ [] ∧ id ∈ barrier then info.markAsUsedInBarrier else info
  new : ∀ id, before.consumers.length ≤ id → after.consumers[id]? =
    handlers[id - before.consumers.length]?.map fun handler => ⟨handler, barrier, true⟩

theorem created_of_step {before after : State η} {barrier : List Nat} {handlers : List η}
    (known : ∀ id ∈ barrier, id < before.consumers.length)
    (stepped : createEventProcessors before barrier handlers = some after) :
    Created before after barrier handlers := by
  rcases Option.ite_none_left_eq_some.mp stepped with ⟨notStarted, isAfter⟩
  cases isAfter
  rw [Bool.not_eq_true] at notStarted
  by_cases isNil : handlers = []
  · subst isNil
    have same : ∀ id : Nat, (before.consumers ++ ([] : List η).map fun handler =>
        (⟨handler, barrier, true⟩ : EventProcessorInfo η))[id]? = before.consumers[id]? := by
      intro id
      rw [List.map_nil, List.append_nil]
    refine ⟨notStarted, notStarted, rfl, rfl, ?_, ?_, ?_⟩
    · rw [if_pos rfl, List.map_nil, List.append_nil]
      rfl
    · intro id _
      rw [if_pos rfl, same]
      simp
    · intro id above
      rw [if_pos rfl, same, List.getElem?_eq_none above]
      rfl
  · refine ⟨notStarted, notStarted, rfl, rfl, ?_, ?_, ?_⟩
    · rw [if_neg isNil, length_unMark, List.length_append, List.length_map]
    · intro id below
      rw [if_neg isNil, getElem?_unMark, List.getElem?_append_left below]
      simp only [ne_eq, isNil, not_false_eq_true, true_and]
    · intro id above
      have other : id ∉ barrier := fun member => by
        have below := known id member
        omega
      rw [if_neg isNil, getElem?_unMark, List.getElem?_append_right above, List.getElem?_map,
        Option.map_map]
      simp only [other, if_false, Function.comp_def]

theorem Created.tracks_iff {before after : State η} {barrier : List Nat} {handlers : List η}
    (created : Created before after barrier handlers) (later id : Nat) :
    after.Tracks later id ↔ before.Tracks later id ∨
      before.consumers.length ≤ later ∧ later < after.consumers.length ∧ id ∈ barrier := by
  by_cases old : later < before.consumers.length
  · have noneNew : ¬ before.consumers.length ≤ later := not_le.mpr old
    rw [State.Tracks, created.old later old, State.Tracks]
    constructor
    · intro tracks
      obtain ⟨marked, isMarked, member⟩ := tracks
      rcases Option.map_eq_some_iff.mp isMarked with ⟨info, isInfo, rfl⟩
      refine .inl ⟨info, isInfo, ?_⟩
      split at member <;> exact member
    · intro tracks
      obtain ⟨info, isInfo, member⟩ := tracks.resolve_right fun new => noneNew new.1
      refine ⟨_, Option.map_eq_some_iff.mpr ⟨info, isInfo, rfl⟩, ?_⟩
      split <;> exact member
  · have above := not_lt.mp old
    have notBefore : ¬ before.Tracks later id := fun tracks => old tracks.lt_length
    rw [State.Tracks, created.new later above]
    constructor
    · intro tracks
      obtain ⟨new, isNew, member⟩ := tracks
      rcases Option.map_eq_some_iff.mp isNew with ⟨handler, isHandler, rfl⟩
      have below := (List.getElem?_eq_some_iff.mp isHandler).1
      rw [created.length]
      exact .inr ⟨above, by omega, member⟩
    · intro tracks
      obtain ⟨-, below, member⟩ := tracks.resolve_left notBefore
      rw [created.length] at below
      have inside : later - before.consumers.length < handlers.length := by omega
      exact ⟨_, Option.map_eq_some_iff.mpr ⟨_, List.getElem?_eq_getElem inside, rfl⟩, member⟩

theorem Wired.created {before after : State η} {barrier : List Nat} {handlers : List η}
    (wired : Wired before) (known : ∀ id ∈ barrier, id < before.consumers.length)
    (created : Created before after barrier handlers) : Wired after where
  earlier := by
    intro later id tracks
    rcases (created.tracks_iff later id).mp tracks with old | new
    · exact wired.earlier old
    · exact (known id new.2.2).trans_le new.1
  groups := by
    intro group member id inGroup
    rw [created.length]
    rw [created.groups] at member
    rcases List.mem_append.mp member with old | new
    · exact (wired.groups group old id inGroup).trans_le (Nat.le_add_right _ _)
    · rw [List.mem_singleton.mp new, List.mem_range'_1] at inGroup
      exact inGroup.2
  ends := by
    intro id info isInfo
    have tracked : (∃ later, after.Tracks later id) ↔
        (∃ later, before.Tracks later id) ∨ handlers ≠ [] ∧ id ∈ barrier := by
      constructor
      · intro found
        obtain ⟨later, tracks⟩ := found
        rcases (created.tracks_iff later id).mp tracks with old | new
        · exact .inl ⟨later, old⟩
        · refine .inr ⟨?_, new.2.2⟩
          rintro rfl
          rw [created.length] at new
          exact absurd (new.1.trans_lt new.2.1) (lt_irrefl _)
      · intro either
        rcases either with old | new
        · obtain ⟨later, tracks⟩ := old
          exact ⟨later, (created.tracks_iff later id).mpr (.inl tracks)⟩
        · have positive := List.length_pos_iff.mpr new.1
          exact ⟨before.consumers.length, (created.tracks_iff _ id).mpr
            (.inr ⟨le_rfl, by rw [created.length]; omega, new.2⟩)⟩
    rw [tracked]
    by_cases old : id < before.consumers.length
    · rw [created.old id old] at isInfo
      rcases Option.map_eq_some_iff.mp isInfo with ⟨earlier, isEarlier, isMarked⟩
      rw [← wired.ends isEarlier, ← isMarked]
      split
      case isTrue marked => exact iff_of_true rfl (.inr marked)
      case isFalse unmarked => exact (or_iff_left unmarked).symm
    · rw [created.new id (not_lt.mp old)] at isInfo
      rcases Option.map_eq_some_iff.mp isInfo with ⟨handler, -, rfl⟩
      refine iff_of_false Bool.true_eq_false_eq_False ?_
      intro either
      rcases either with tracks | member
      · obtain ⟨later, tracks⟩ := tracks
        exact old ((wired.earlier tracks).trans tracks.lt_length)
      · exact old (known id member.2)
  gating := by
    intro id
    rw [created.gating, wired.gating id, created.notStarted, created.started]
    exact iff_of_false (fun started => Bool.false_ne_true started.1)
      fun started => Bool.false_ne_true started.1

theorem getSequenceFor_lt [DecidableEq η] {consumers : List (EventProcessorInfo η)} {handler : η}
    {id : Nat} (found : getSequenceFor consumers handler = some id) : id < consumers.length :=
  List.mem_range.mp (List.mem_reverse.mp (List.mem_of_find?_eq_some found))

theorem lt_of_mem_mapM [DecidableEq η] {consumers : List (EventProcessorInfo η)}
    {handlers : List η} {sequences : List Nat}
    (found : handlers.mapM (getSequenceFor consumers) = some sequences) :
    ∀ id ∈ sequences, id < consumers.length := by
  induction handlers generalizing sequences with
  | nil =>
      cases found
      exact fun _ member => absurd member List.not_mem_nil
  | cons handler rest inductionHypothesis =>
      rw [List.mapM_cons] at found
      rcases Option.bind_eq_some_iff.mp found with ⟨first, isFirst, found⟩
      rcases Option.bind_eq_some_iff.mp found with ⟨others, areOthers, isAll⟩
      cases isAll
      intro id member
      rcases List.mem_cons.mp member with isThis | later
      · rw [isThis]
        exact getSequenceFor_lt isFirst
      · exact inductionHypothesis areOthers id later

theorem mem_getLastSequenceInChain {consumers : List (EventProcessorInfo η)} {id : Nat} :
    id ∈ getLastSequenceInChain consumers ↔
      ∃ info, consumers[id]? = some info ∧ info.isEndOfChain = true := by
  rw [getLastSequenceInChain, List.mem_filter, List.mem_range, Option.any_eq_true]
  constructor
  · exact fun found => found.2
  · intro found
    obtain ⟨info, isInfo, isEnd⟩ := found
    exact ⟨(List.getElem?_eq_some_iff.mp isInfo).1, info, isInfo, isEnd⟩

theorem Wired.mem_last_iff {state : State η} (wired : Wired state) (id : Nat) :
    id ∈ getLastSequenceInChain state.consumers ↔
      id < state.consumers.length ∧ ∀ later, ¬ state.Tracks later id := by
  rw [mem_getLastSequenceInChain]
  constructor
  · intro found
    obtain ⟨info, isInfo, isEnd⟩ := found
    refine ⟨(List.getElem?_eq_some_iff.mp isInfo).1, fun later tracks => ?_⟩
    have marked := (wired.ends isInfo).mpr ⟨later, tracks⟩
    rw [isEnd] at marked
    cases marked
  · intro facts
    have isInfo := List.getElem?_eq_getElem facts.1
    refine ⟨_, isInfo, ?_⟩
    rw [← Bool.not_eq_false]
    intro marked
    obtain ⟨later, tracks⟩ := (wired.ends isInfo).mp marked
    exact facts.2 later tracks

/-- A call that only returns another group. -/
theorem Wired.grouped {state : State η} (wired : Wired state) {group : List Nat}
    (known : ∀ id ∈ group, id < state.consumers.length) :
    Wired { state with groups := state.groups ++ [group] } where
  earlier := wired.earlier
  groups := by
    intro other member
    rcases List.mem_append.mp member with old | new
    · exact wired.groups other old
    · rw [List.mem_singleton.mp new]
      exact known
  ends := wired.ends
  gating := wired.gating

theorem step_wired [DecidableEq η] {before after : State η} {action : Action η}
    (wired : Wired before) (stepped : step before action = some after) : Wired after := by
  cases action with
  | handleEventsWith handlers =>
      have known : ∀ id ∈ ([] : List Nat), id < before.consumers.length :=
        fun _ member => absurd member List.not_mem_nil
      exact wired.created known (created_of_step known stepped)
  | «then» group handlers =>
      rcases Option.bind_eq_some_iff.mp stepped with ⟨barrier, isBarrier, stepped⟩
      have known := wired.groups barrier (List.mem_of_getElem? isBarrier)
      exact wired.created known (created_of_step known stepped)
  | and group other =>
      rcases Option.bind_eq_some_iff.mp stepped with ⟨sequences, isGroup, stepped⟩
      rcases Option.map_eq_some_iff.mp stepped with ⟨more, isOther, isAfter⟩
      cases isAfter
      apply wired.grouped
      intro id member
      rcases List.mem_append.mp member with first | second
      · exact wired.groups sequences (List.mem_of_getElem? isGroup) id first
      · exact wired.groups more (List.mem_of_getElem? isOther) id second
  | after handlers =>
      rcases Option.map_eq_some_iff.mp stepped with ⟨sequences, found, isAfter⟩
      cases isAfter
      exact wired.grouped (lt_of_mem_mapM found)
  | start =>
      cases stepped
      refine ⟨wired.earlier, wired.groups, wired.ends, fun id => ?_⟩
      rw [List.mem_append, wired.gating id, wired.mem_last_iff id]
      constructor
      · intro either
        rcases either with registered | last
        · exact ⟨rfl, registered.2⟩
        · exact ⟨rfl, last⟩
      · exact fun last => .inr last.2

theorem run_wired [DecidableEq η] {state : State η} {actions : List (Action η)}
    (ran : Machine.run step initial actions = some state) : Wired state :=
  Machine.run_invariant Wired step_wired wired_initial ran

/-- From every processor there is a chain of others that track it to one that the ring buffer
is gated on, since barriers track earlier processors. -/
theorem Wired.exists_gating {state : State η} (wired : Wired state)
    (started : state.started = true) {id : Nat} (known : id < state.consumers.length) :
    ∃ last ∈ state.gating, Relation.ReflTransGen state.Tracks last id := by
  by_cases tracked : ∃ later, state.Tracks later id
  · obtain ⟨later, tracks⟩ := tracked
    have above := wired.earlier tracks
    have below := tracks.lt_length
    obtain ⟨last, isGating, chain⟩ := wired.exists_gating started below
    exact ⟨last, isGating, chain.tail tracks⟩
  · refine ⟨id, (wired.gating id).mpr ⟨started, known, fun later tracks => ?_⟩, .refl⟩
    exact tracked ⟨later, tracks⟩
termination_by state.consumers.length - id

/-- However a disruptor is wired, barriers track earlier processors only, so that there is
no circle, and after `start` the ring buffer is gated on exactly those processors that no
barrier tracks; every processor is tracked, directly or over others, by one of these. -/
theorem gating_iff [DecidableEq η] {state : State η} {actions : List (Action η)}
    (ran : Machine.run step initial actions = some state) (started : state.started = true) :
    (∀ later id, state.Tracks later id → id < later ∧ later < state.consumers.length) ∧
    (∀ id, id ∈ state.gating ↔
      id < state.consumers.length ∧ ∀ later, ¬ state.Tracks later id) ∧
    ∀ id < state.consumers.length,
      ∃ last ∈ state.gating, Relation.ReflTransGen state.Tracks last id := by
  have wired := run_wired ran
  refine ⟨fun later id tracks => ⟨wired.earlier tracks, tracks.lt_length⟩, fun id => ?_,
    fun id known => wired.exists_gating started known⟩
  rw [wired.gating id, started]
  exact and_iff_right rfl

/-- Two handlers side by side, and one after both. -/
def sampleActions : List (Action Nat) :=
  [.handleEventsWith [0, 1], .then 0 [2], .start]

theorem gating_iff_sample :
    ∃ state : State Nat, Machine.run step initial sampleActions = some state ∧
      state.gating = [2] ∧ (∀ later, ¬ state.Tracks later 2) ∧
      ∃ last ∈ state.gating, Relation.ReflTransGen state.Tracks last 0 := by
  have gating : (Machine.run step (initial : State Nat) sampleActions).map
      (fun state => (state.gating, state.started, state.consumers.length)) =
      some ([2], true, 3) := by decide
  rcases Option.map_eq_some_iff.mp gating with ⟨state, ran, facts⟩
  have isGating : state.gating = [2] := congrArg Prod.fst facts
  have started : state.started = true := congrArg (fun fact => fact.2.1) facts
  have length : state.consumers.length = 3 := congrArg (fun fact => fact.2.2) facts
  have last : 2 ∈ state.gating := by
    rw [isGating]
    exact List.mem_singleton_self 2
  obtain ⟨-, gates, chains⟩ := gating_iff ran started
  exact ⟨state, ran, isGating, ((gates 2).mp last).2, chains 0 (by omega)⟩

end Wiring

end Dift.Disruptor
