import Dift.Supply.Release

/-!
Owns the supply ring of `SupplierN`, with `Supplier` as its one-consumer case:
a producer that claims, fills and publishes slots, and consumers that take
published slots and release them in any order. Every access to shared state is
a step of its own, so that the runs are all interleavings. What is assumed of
the ring buffer underneath (claims wait for the gating sequences, waiting
returns a published sequence, slots are sequences modulo the size) is the guard
or the effect of a step; the effect of `reset` on an item is unknown.
-/

namespace Dift.Supply

/-- A ring as either constructor leaves it. -/
structure Ring where
  ringSize : Nat
  consumerCount : Nat
  reset : SupplyItem → SupplyItem
  positive : 0 < ringSize
  small : ringSize < 2 ^ 32

/-- The constructor of `SupplierN`. `isPowerOf2` belongs to the ring buffer
library. -/
def SupplierN.construct (isPowerOf2 : Nat → Bool) (reset : SupplyItem → SupplyItem)
    (ringSize consumerCount : UInt32) : Except String Ring :=
  if consumerCount > 8 then .error "too many consumers, 8 max"
  else if one : ringSize < 1 ∨ consumerCount < 1 then .error "positive args only"
  else if ¬ isPowerOf2 ringSize.toNat then .error "ringSize must be a power of 2"
  else
    .ok {
      ringSize := ringSize.toNat
      consumerCount := consumerCount.toNat
      reset := reset
      positive := by
        have atLeast : 1 ≤ ringSize := by
          rw [not_or, UInt32.not_lt] at one
          exact one.1
        exact UInt32.le_iff_toNat_le.mp atLeast
      small := ringSize.toNat_lt }

/-- The constructor of `Supplier`, which takes an `int`. -/
def Supplier.construct (isPowerOf2 : Nat → Bool) (reset : SupplyItem → SupplyItem)
    (ringSize : Int) (isInt : ringSize < 2 ^ 31) : Except String Ring :=
  if one : ringSize < 1 then .error "positive args only"
  else if ¬ isPowerOf2 ringSize.toNat then .error "ringSize must be a power of 2"
  else
    .ok {
      ringSize := ringSize.toNat
      consumerCount := 1
      reset := reset
      positive := by omega
      small := by omega }

/-- The slot of a sequence. -/
def Ring.slot (ring : Ring) (seq : Int) : Nat :=
  (seq % ring.ringSize).toNat

namespace Ring

/-! ### States -/

/-- Where the producer is: between calls, or in `get` with a claimed sequence,
before and after the item was reset, or holding the item `get` returned. -/
inductive ProducerStage where
  | idle
  | claimed (seq : Int)
  | cleared (seq : Int)
  | got (seq : Int)
deriving DecidableEq, Repr

/-- Where a consumer is in `consumerGet`: between calls, past the wait, or with
an item whose sequence it has set. -/
inductive GetStage where
  | idle
  | ready
  | marked (taken : Int)
deriving DecidableEq, Repr

/-- Where a release is: not begun, past the read of the flag, or past the read
of the sequence. -/
inductive ReleaseStage where
  | held
  | flagged (fromConsumerGet : Bool)
  | sequenced (seq : Int)
deriving DecidableEq, Repr

/-- An item a consumer has got, the sequence it got it under, and how far its
release has come. -/
structure Hold where
  taken : Int
  stage : ReleaseStage
deriving DecidableEq, Repr

/-- One consumer. The last two lists record what it obtained and released. -/
structure Consumer where
  nextConsumerSequence : Int
  availableConsumerSequence : Int
  stage : GetStage
  holds : List Hold
  books : Books
  obtained : List Int
  released : List Int

/-- The whole supply. `published` records what was published. -/
structure State where
  items : Nat → SupplyItem
  nextSequence : Int
  cursor : Int
  producer : ProducerStage
  consumers : Nat → Consumer
  published : List Int

def initialConsumer : Consumer where
  nextConsumerSequence := Books.initial.sequence + 1
  availableConsumerSequence := -1
  stage := .idle
  holds := []
  books := .initial
  obtained := []
  released := []

/-- After the constructor, whatever the items hold. -/
def initial (items : Nat → SupplyItem) : State where
  items := items
  nextSequence := 0
  cursor := -1
  producer := .idle
  consumers := fun _ => initialConsumer
  published := []

/-! ### Steps -/

/-- One access to shared state. `available` is what `waitFor` returns, `index`
says which of the held items a release is about. -/
inductive Action where
  | next
  | reset
  | setProducerSequence
  | publish
  | waitFor (id : Nat) (available : Int)
  | setConsumerSequence (id : Nat)
  | setFromConsumerGet (id : Nat)
  | readFlag (id index : Nat)
  | readSequence (id index : Nat)
  | release (id index : Nat)
deriving DecidableEq, Repr

def State.setItem (state : State) (slot : Nat) (item : SupplyItem) : State :=
  { state with items := Function.update state.items slot item }

def State.setConsumer (state : State) (id : Nat) (consumer : Consumer) : State :=
  { state with consumers := Function.update state.consumers id consumer }

@[simp] theorem State.setConsumer_self (state : State) (id : Nat) (consumer : Consumer) :
    (state.setConsumer id consumer).consumers id = consumer :=
  Function.update_self _ _ _

theorem State.setConsumer_of_ne (state : State) {id other : Nat} (different : other ≠ id)
    (consumer : Consumer) :
    (state.setConsumer id consumer).consumers other = state.consumers other :=
  Function.update_of_ne different _ _

@[simp] theorem State.setConsumer_items (state : State) (id : Nat) (consumer : Consumer) :
    (state.setConsumer id consumer).items = state.items := rfl

@[simp] theorem State.setConsumer_cursor (state : State) (id : Nat) (consumer : Consumer) :
    (state.setConsumer id consumer).cursor = state.cursor := rfl

@[simp] theorem State.setItem_consumers (state : State) (slot : Nat) (item : SupplyItem) :
    (state.setItem slot item).consumers = state.consumers := rfl

@[simp] theorem State.setItem_cursor (state : State) (slot : Nat) (item : SupplyItem) :
    (state.setItem slot item).cursor = state.cursor := rfl

@[simp] theorem State.setItem_self (state : State) (slot : Nat) (item : SupplyItem) :
    (state.setItem slot item).items slot = item :=
  Function.update_self _ _ _

theorem State.setItem_of_ne (state : State) {slot other : Nat} (different : other ≠ slot)
    (item : SupplyItem) : (state.setItem slot item).items other = state.items other :=
  Function.update_of_ne different _ _

def SupplyItem.setConsumerSequence (item : SupplyItem) (seq : Int) (id : Nat) : SupplyItem :=
  { item with consumerSequence := Function.update item.consumerSequence id seq }

variable (ring : Ring)

/-- `next` returns a sequence only when the slot's last use is given back by
every consumer. -/
def next (state : State) : Option State :=
  if state.producer = .idle ∧ ∀ id < ring.consumerCount,
      state.nextSequence - ring.ringSize ≤ (state.consumers id).books.sequence then
    some { state with
      producer := .claimed state.nextSequence
      nextSequence := state.nextSequence + 1 }
  else none

def resetItem (state : State) : Option State :=
  match state.producer with
  | .claimed seq =>
      some { state.setItem (ring.slot seq) (ring.reset (state.items (ring.slot seq))) with
        producer := .cleared seq }
  | _ => none

def setProducerSequence (state : State) : Option State :=
  match state.producer with
  | .cleared seq =>
      some { state.setItem (ring.slot seq)
          { state.items (ring.slot seq) with producerSequence := seq } with
        producer := .got seq }
  | _ => none

/-- `publish` makes the item's own sequence the cursor. -/
def publish (state : State) : Option State :=
  match state.producer with
  | .got seq =>
      let published := (state.items (ring.slot seq)).producerSequence
      some { state with
        cursor := published
        producer := .idle
        published := state.published ++ [published] }
  | _ => none

/-- The wait of `consumerGet`, only if necessary. -/
def waitFor (state : State) (id : Nat) (available : Int) : Option State :=
  let consumer := state.consumers id
  if consumer.stage ≠ .idle then none
  else if consumer.availableConsumerSequence < consumer.nextConsumerSequence then
    if consumer.nextConsumerSequence ≤ available ∧ available ≤ state.cursor then
      some (state.setConsumer id { consumer with
        availableConsumerSequence := available
        stage := .ready })
    else none
  else some (state.setConsumer id { consumer with stage := .ready })

def setConsumerSequence (state : State) (id : Nat) : Option State :=
  let consumer := state.consumers id
  let seq := consumer.nextConsumerSequence
  if consumer.stage = .ready then
    some ((state.setItem (ring.slot seq)
        (SupplyItem.setConsumerSequence (state.items (ring.slot seq)) seq id)).setConsumer id
      { consumer with nextConsumerSequence := seq + 1, stage := .marked seq })
  else none

/-- The end of `consumerGet`. -/
def setFromConsumerGet (state : State) (id : Nat) : Option State :=
  let consumer := state.consumers id
  match consumer.stage with
  | .marked taken =>
      some ((state.setItem (ring.slot taken)
          { state.items (ring.slot taken) with fromConsumerGet := true }).setConsumer id
        { consumer with
          stage := .idle
          holds := consumer.holds ++ [⟨taken, .held⟩]
          obtained := consumer.obtained ++ [taken] })
  | _ => none

/-- Change the stage of one held item. -/
def setStage (state : State) (id index : Nat) (hold : Hold) : State :=
  let consumer := state.consumers id
  state.setConsumer id { consumer with holds := consumer.holds.set index hold }

def readFlag (state : State) (id index : Nat) : Option State :=
  match (state.consumers id).holds[index]? with
  | some ⟨taken, .held⟩ =>
      some (setStage state id index
        ⟨taken, .flagged (state.items (ring.slot taken)).fromConsumerGet⟩)
  | _ => none

def readSequence (state : State) (id index : Nat) : Option State :=
  match (state.consumers id).holds[index]? with
  | some ⟨taken, .flagged fromConsumerGet⟩ =>
      let item := state.items (ring.slot taken)
      some (setStage state id index
        ⟨taken, .sequenced
          (if fromConsumerGet then item.consumerSequence id else item.producerSequence)⟩)
  | _ => none

/-- `decrementCounter`, true for the only user, and the mutex section. -/
def release (state : State) (id index : Nat) : Option State :=
  let consumer := state.consumers id
  match consumer.holds[index]? with
  | some ⟨taken, .sequenced seq⟩ =>
      some (state.setConsumer id { consumer with
        holds := consumer.holds.eraseIdx index
        books := releaseItem false true consumer.books seq
        released := consumer.released ++ [taken] })
  | _ => none

/-- One step. Calls with an unknown consumer throw before they touch anything. -/
def step (state : State) : Action → Option State
  | .next => next ring state
  | .reset => resetItem ring state
  | .setProducerSequence => setProducerSequence ring state
  | .publish => publish ring state
  | .waitFor id available =>
      if id < ring.consumerCount then waitFor state id available else none
  | .setConsumerSequence id =>
      if id < ring.consumerCount then setConsumerSequence ring state id else none
  | .setFromConsumerGet id =>
      if id < ring.consumerCount then setFromConsumerGet ring state id else none
  | .readFlag id index => if id < ring.consumerCount then readFlag ring state id index else none
  | .readSequence id index =>
      if id < ring.consumerCount then readSequence ring state id index else none
  | .release id index => if id < ring.consumerCount then release state id index else none

/-- A run: every action is possible where it stands. -/
def run (state : State) (actions : List Action) : Option State :=
  actions.foldlM (step ring) state

/-! ### The invariant -/

/-- The sequences from 0 up to, but not including, a bound. -/
def upTo (bound : Int) : List Int :=
  (List.range bound.toNat).map Int.ofNat

theorem mem_upTo {seq bound : Int} : seq ∈ upTo bound ↔ 0 ≤ seq ∧ seq < bound := by
  simp only [upTo, List.mem_map, List.mem_range]
  constructor
  · intro found
    obtain ⟨index, below, rfl⟩ := found
    simp only [Int.ofNat_eq_natCast]
    omega
  · intro bounds
    obtain ⟨nonneg, below⟩ := bounds
    exact ⟨seq.toNat, by omega, by simp only [Int.ofNat_eq_natCast]; omega⟩

theorem upTo_nodup (bound : Int) : (upTo bound).Nodup :=
  List.nodup_range.map fun _ _ same => Int.ofNat.inj same

theorem upTo_add_one {bound : Int} (nonneg : 0 ≤ bound) :
    upTo (bound + 1) = upTo bound ++ [bound] := by
  have size : (bound + 1).toNat = bound.toNat + 1 := by omega
  have same : Int.ofNat bound.toNat = bound := by
    rw [Int.ofNat_eq_natCast]
    omega
  rw [upTo, size, List.range_succ, List.map_append, List.map_singleton, same]
  rfl

/-- The sequence that `consumerGet` is just obtaining. -/
def GetStage.taken : GetStage → List Int
  | .marked taken => [taken]
  | _ => []

/-- The sequences a consumer has taken and not released. -/
def Consumer.outstanding (consumer : Consumer) : List Int :=
  consumer.stage.taken ++ consumer.holds.map Hold.taken

/-- What holds of one consumer: it is not ahead of the cursor, its books are
right, every sequence it passed is outstanding or released, exactly once, and
an outstanding item still says so. -/
structure ConsumerInv (ring : Ring) (state : State) (id : Nat) : Prop where
  nextNonneg : 0 ≤ (state.consumers id).nextConsumerSequence
  nextLe : (state.consumers id).nextConsumerSequence ≤ state.cursor + 1
  availableLe : (state.consumers id).availableConsumerSequence ≤ state.cursor
  ready : (state.consumers id).stage = .ready →
    (state.consumers id).nextConsumerSequence ≤ (state.consumers id).availableConsumerSequence
  account : Books.Account (state.consumers id).released.toFinset (state.consumers id).books
  shares : ((state.consumers id).outstanding ++ (state.consumers id).released).Perm
    (upTo (state.consumers id).nextConsumerSequence)
  obtained : (state.consumers id).obtained ++ (state.consumers id).stage.taken =
    upTo (state.consumers id).nextConsumerSequence
  marks : ∀ taken ∈ (state.consumers id).outstanding,
    (state.items (ring.slot taken)).consumerSequence id = taken
  reads : ∀ hold ∈ (state.consumers id).holds, ∀ seq, hold.stage = .sequenced seq →
    seq = hold.taken

/-- What holds of the producer. -/
def ProducerInv (ring : Ring) (state : State) : Prop :=
  match state.producer with
  | .idle => state.nextSequence = state.cursor + 1
  | .claimed seq => seq = state.cursor + 1 ∧ state.nextSequence = state.cursor + 2
  | .cleared seq => seq = state.cursor + 1 ∧ state.nextSequence = state.cursor + 2
  | .got seq => seq = state.cursor + 1 ∧ state.nextSequence = state.cursor + 2 ∧
      (state.items (ring.slot seq)).producerSequence = seq

/-- The invariant: claims stay within one ring of every gating sequence, and
the published slots of the last ring still carry their sequence. -/
structure Inv (ring : Ring) (state : State) : Prop where
  cursor : -1 ≤ state.cursor
  producer : ProducerInv ring state
  window : ∀ id < ring.consumerCount,
    state.nextSequence ≤ (state.consumers id).books.sequence + 1 + ring.ringSize
  filled : ∀ seq, 0 ≤ seq → state.nextSequence - ring.ringSize ≤ seq → seq ≤ state.cursor →
    (state.items (ring.slot seq)).producerSequence = seq
  published : state.published = upTo (state.cursor + 1)
  consumers : ∀ id < ring.consumerCount, ConsumerInv ring state id

theorem inv_initial (items : Nat → SupplyItem) : Inv ring (initial items) where
  cursor := le_rfl
  producer := rfl
  window := by
    intro id _
    have positive := ring.positive
    simp only [initial, initialConsumer, Books.initial]
    omega
  filled := by
    intro seq nonneg _ low
    simp only [initial] at low
    omega
  published := rfl
  consumers := fun id _ => {
    nextNonneg := le_rfl
    nextLe := le_rfl
    availableLe := le_rfl
    ready := by simp [initial, initialConsumer]
    account := Books.account_initial
    shares := List.Perm.nil
    obtained := rfl
    marks := by simp [initial, initialConsumer, Consumer.outstanding, GetStage.taken]
    reads := by simp [initial, initialConsumer] }

variable {ring}

/-- Two sequences less than one ring apart have different slots. -/
theorem slot_ne {first second : Int} (different : first ≠ second)
    (near : first - second < ring.ringSize) (nearBack : second - first < ring.ringSize) :
    ring.slot first ≠ ring.slot second := by
  have positive := ring.positive
  intro same
  have firstNonneg := Int.emod_nonneg first (show (ring.ringSize : Int) ≠ 0 by omega)
  have secondNonneg := Int.emod_nonneg second (show (ring.ringSize : Int) ≠ 0 by omega)
  have equal : first % ring.ringSize = second % ring.ringSize := by
    unfold slot at same
    omega
  have divides : (ring.ringSize : Int) ∣ first - second :=
    Int.dvd_of_emod_eq_zero (Int.emod_eq_emod_iff_emod_sub_eq_zero.mp equal)
  have zero := Int.eq_zero_of_abs_lt_dvd divides (abs_lt.mpr ⟨by omega, by omega⟩)
  omega

theorem Inv.cursor_lt_next {state : State} (inv : Inv ring state) :
    state.cursor < state.nextSequence := by
  have producer := inv.producer
  unfold ProducerInv at producer
  split at producer <;> omega

section Facts

variable {state : State} (inv : Inv ring state) {id : Nat} (known : id < ring.consumerCount)

include inv known

theorem Inv.outstanding_notMem {taken : Int}
    (member : taken ∈ (state.consumers id).outstanding) :
    taken ∉ (state.consumers id).released := by
  have nodup := (inv.consumers id known).shares.nodup_iff.mpr (upTo_nodup _)
  exact fun released => (List.nodup_append.mp nodup).2.2 taken member taken released rfl

theorem Inv.outstanding_bounds {taken : Int}
    (member : taken ∈ (state.consumers id).outstanding) :
    0 ≤ taken ∧ taken < (state.consumers id).nextConsumerSequence :=
  mem_upTo.mp ((inv.consumers id known).shares.subset (List.mem_append_left _ member))

theorem Inv.released_bounds {seq : Int} (member : seq ∈ (state.consumers id).released) :
    0 ≤ seq ∧ seq < (state.consumers id).nextConsumerSequence :=
  mem_upTo.mp ((inv.consumers id known).shares.subset (List.mem_append_right _ member))

/-- The producer has not come round to an outstanding slot. -/
theorem Inv.outstanding_live {taken : Int}
    (member : taken ∈ (state.consumers id).outstanding) :
    state.nextSequence - ring.ringSize ≤ taken ∧ taken ≤ state.cursor := by
  have bounds := inv.outstanding_bounds known member
  have nextLe := (inv.consumers id known).nextLe
  have window := inv.window id known
  have account := (inv.consumers id known).account
  have above := account.last_lt bounds.1
    (fun released => inv.outstanding_notMem known member (List.mem_toFinset.mp released))
  rw [account.gating] at window
  omega

/-- What a consumer releases next is within one ring of what it has given
back. -/
theorem Inv.pending_few :
    (Books.pending (state.consumers id).released.toFinset (state.consumers id).books).card <
      2 ^ 32 := by
  have account := (inv.consumers id known).account
  have inside : Books.pending (state.consumers id).released.toFinset (state.consumers id).books ⊆
      Finset.Ioo (state.consumers id).books.lastSequenceReleased
        (state.consumers id).nextConsumerSequence := by
    intro seq member
    rcases Finset.mem_filter.mp member with ⟨released, above⟩
    have bounds := inv.released_bounds known (List.mem_toFinset.mp released)
    exact Finset.mem_Ioo.mpr ⟨above, bounds.2⟩
  have size := Finset.card_le_card inside
  rw [Int.card_Ioo] at size
  have window := inv.window id known
  have nextLe := (inv.consumers id known).nextLe
  have small := ring.small
  have claimed := inv.cursor_lt_next
  rw [account.gating] at window
  omega

end Facts

/-! ### What one step preserves -/

/-- A consumer is not affected by what others do. -/
theorem ConsumerInv.frame {before after : State} {id : Nat} (inv : ConsumerInv ring before id)
    (same : after.consumers id = before.consumers id) (cursor : before.cursor ≤ after.cursor)
    (marks : ∀ taken ∈ (before.consumers id).outstanding,
      (after.items (ring.slot taken)).consumerSequence id =
        (before.items (ring.slot taken)).consumerSequence id) : ConsumerInv ring after id where
  nextNonneg := by
    rw [same]
    exact inv.nextNonneg
  nextLe := by
    rw [same]
    have before := inv.nextLe
    omega
  availableLe := by
    rw [same]
    have before := inv.availableLe
    omega
  ready := by
    rw [same]
    exact inv.ready
  account := by
    rw [same]
    exact inv.account
  shares := by
    rw [same]
    exact inv.shares
  obtained := by
    rw [same]
    exact inv.obtained
  marks := by
    rw [same]
    intro taken member
    rw [marks taken member]
    exact inv.marks taken member
  reads := by
    rw [same]
    exact inv.reads

/-- A step of one consumer that changes no producer sequence and no mark of
another consumer keeps the invariant when it keeps that consumer's own. -/
theorem Inv.of_consumer {before after : State} (inv : Inv ring before) (id : Nat)
    (nextSequence : after.nextSequence = before.nextSequence)
    (cursor : after.cursor = before.cursor) (producer : after.producer = before.producer)
    (published : after.published = before.published)
    (sequences : ∀ slot, (after.items slot).producerSequence =
      (before.items slot).producerSequence)
    (others : ∀ other ≠ id, after.consumers other = before.consumers other)
    (otherMarks : ∀ other ≠ id, ∀ slot, (after.items slot).consumerSequence other =
      (before.items slot).consumerSequence other)
    (gating : (before.consumers id).books.sequence ≤ (after.consumers id).books.sequence)
    (own : id < ring.consumerCount → ConsumerInv ring after id) : Inv ring after where
  cursor := by
    rw [cursor]
    exact inv.cursor
  producer := by
    have kept := inv.producer
    unfold ProducerInv at kept ⊢
    simp only [producer, cursor, nextSequence, sequences]
    exact kept
  window := by
    intro other known
    have kept := inv.window other known
    rw [nextSequence]
    by_cases same : other = id
    · subst same
      omega
    · rwa [others other same]
  filled := by
    intro seq nonneg low high
    rw [sequences]
    rw [nextSequence] at low
    rw [cursor] at high
    exact inv.filled seq nonneg low high
  published := by
    rw [published, cursor]
    exact inv.published
  consumers := by
    intro other known
    by_cases same : other = id
    · subst same
      exact own known
    · exact (inv.consumers other known).frame (others other same) (by rw [cursor])
        fun taken _ => otherMarks other same _

theorem next_inv {before after : State} (inv : Inv ring before)
    (stepped : next ring before = some after) : Inv ring after := by
  unfold next at stepped
  split at stepped
  case isFalse => cases stepped
  case isTrue free =>
    rcases free with ⟨idle, gated⟩
    cases stepped
    have producer := inv.producer
    simp only [ProducerInv, idle] at producer
    refine ⟨inv.cursor, ⟨producer, by simp only; omega⟩, ?_, ?_, inv.published, ?_⟩
    · intro id known
      have room := gated id known
      simp only
      omega
    · intro seq nonneg low high
      simp only at low
      exact inv.filled seq nonneg (by omega) high
    · exact fun id known => (inv.consumers id known).frame rfl le_rfl fun _ _ => rfl

/-- The producer changes only the slot it has claimed, which is none of those
outstanding or published in the last ring. -/
theorem Inv.of_claimed {before after : State} (inv : Inv ring before)
    (claimed : before.nextSequence = before.cursor + 2)
    (nextSequence : after.nextSequence = before.nextSequence)
    (cursor : after.cursor = before.cursor) (published : after.published = before.published)
    (consumers : after.consumers = before.consumers)
    (items : ∀ slot ≠ ring.slot (before.cursor + 1), after.items slot = before.items slot)
    (producer : ProducerInv ring after) : Inv ring after where
  cursor := by
    rw [cursor]
    exact inv.cursor
  producer := producer
  window := by
    rw [nextSequence, consumers]
    exact inv.window
  filled := by
    intro seq nonneg low high
    rw [nextSequence] at low
    rw [cursor] at high
    rw [items _ (slot_ne (by omega) (by omega) (by omega))]
    exact inv.filled seq nonneg low high
  published := by
    rw [published, cursor]
    exact inv.published
  consumers := by
    intro id known
    apply (inv.consumers id known).frame (by rw [consumers]) (by rw [cursor])
    intro taken member
    have live := inv.outstanding_live known member
    rw [items _ (slot_ne (by omega) (by omega) (by omega))]

theorem resetItem_inv {before after : State} (inv : Inv ring before)
    (stepped : resetItem ring before = some after) : Inv ring after := by
  unfold resetItem at stepped
  split at stepped
  case h_2 => cases stepped
  case h_1 seq claimed =>
    cases stepped
    have producer := inv.producer
    simp only [ProducerInv, claimed] at producer
    refine inv.of_claimed producer.2 rfl rfl rfl rfl ?_ ?_
    · intro slot other
      rw [← producer.1] at other
      exact before.setItem_of_ne other _
    · exact producer

theorem setProducerSequence_inv {before after : State} (inv : Inv ring before)
    (stepped : setProducerSequence ring before = some after) : Inv ring after := by
  unfold setProducerSequence at stepped
  split at stepped
  case h_2 => cases stepped
  case h_1 seq cleared =>
    cases stepped
    have producer := inv.producer
    simp only [ProducerInv, cleared] at producer
    refine inv.of_claimed producer.2 rfl rfl rfl rfl ?_ ?_
    · intro slot other
      rw [← producer.1] at other
      exact before.setItem_of_ne other _
    · refine ⟨producer.1, producer.2, ?_⟩
      simp

theorem publish_inv {before after : State} (inv : Inv ring before)
    (stepped : publish ring before = some after) : Inv ring after := by
  unfold publish at stepped
  split at stepped
  case h_2 => cases stepped
  case h_1 seq got =>
    have producer := inv.producer
    simp only [ProducerInv, got] at producer
    rcases producer with ⟨current, claimed, stored⟩
    simp only [stored] at stepped
    cases stepped
    have low := inv.cursor
    refine ⟨by simp only; omega, by simp only [ProducerInv]; omega, inv.window, ?_, ?_, ?_⟩
    · intro one nonneg window high
      simp only at window high
      by_cases last : one = seq
      · rw [last]
        exact stored
      · exact inv.filled one nonneg window (by omega)
    · simp only
      rw [upTo_add_one (by omega), inv.published, current]
    · exact fun id known => (inv.consumers id known).frame rfl (by simp only; omega) fun _ _ => rfl

/-- A step of one consumer that leaves the items alone. -/
theorem Inv.of_setConsumer {state : State} (inv : Inv ring state) {id : Nat} {consumer : Consumer}
    (gating : (state.consumers id).books.sequence ≤ consumer.books.sequence)
    (own : ConsumerInv ring (state.setConsumer id consumer) id) :
    Inv ring (state.setConsumer id consumer) := by
  refine inv.of_consumer id rfl rfl rfl rfl (fun _ => rfl) ?_ (fun _ _ _ => rfl) ?_ fun _ => own
  · exact fun other different => state.setConsumer_of_ne different consumer
  · rw [State.setConsumer_self]
    exact gating

/-- After the wait, new or not, the next sequence is published. -/
theorem waitFor_ready {before after : State} (inv : Inv ring before) {id : Nat}
    (known : id < ring.consumerCount) {available : Int}
    (stepped : waitFor before id available = some after) :
    (before.consumers id).stage = .idle ∧
      ∃ enough, (before.consumers id).nextConsumerSequence ≤ enough ∧ enough ≤ before.cursor ∧
        after = before.setConsumer id { before.consumers id with
          availableConsumerSequence := enough
          stage := .ready } := by
  unfold waitFor at stepped
  simp only [ne_eq, ite_not] at stepped
  split at stepped
  case isFalse => cases stepped
  case isTrue idle =>
    refine ⟨idle, ?_⟩
    split at stepped
    case isTrue waits =>
      split at stepped
      case isFalse => cases stepped
      case isTrue published =>
        exact ⟨available, published.1, published.2, (Option.some.inj stepped).symm⟩
    case isFalse enough =>
      exact ⟨_, not_lt.mp enough, (inv.consumers id known).availableLe,
        (Option.some.inj stepped).symm⟩

theorem waitFor_inv {before after : State} (inv : Inv ring before) {id : Nat}
    (known : id < ring.consumerCount) {available : Int}
    (stepped : waitFor before id available = some after) : Inv ring after := by
  have own := inv.consumers id known
  rcases waitFor_ready inv known stepped with ⟨idle, enough, reached, published, rfl⟩
  have shares := own.shares
  have obtained := own.obtained
  have marks := own.marks
  simp only [Consumer.outstanding, idle, GetStage.taken] at shares obtained marks
  refine inv.of_setConsumer le_rfl ⟨?_, ?_, ?_, ?_, ?_, ?_, ?_, ?_, ?_⟩ <;>
    simp only [State.setConsumer_self, State.setConsumer_cursor, State.setConsumer_items]
  · exact own.nextNonneg
  · exact own.nextLe
  · exact published
  · exact fun _ => reached
  · exact own.account
  · exact shares
  · exact obtained
  · exact marks
  · exact own.reads

/-- A step of one consumer that changes one item, neither its producer sequence
nor another consumer's mark. -/
theorem Inv.of_setItem {state : State} (inv : Inv ring state) {id slot : Nat} {item : SupplyItem}
    {consumer : Consumer}
    (sequence : item.producerSequence = (state.items slot).producerSequence)
    (otherMarks : ∀ other ≠ id,
      item.consumerSequence other = (state.items slot).consumerSequence other)
    (gating : (state.consumers id).books.sequence ≤ consumer.books.sequence)
    (own : ConsumerInv ring ((state.setItem slot item).setConsumer id consumer) id) :
    Inv ring ((state.setItem slot item).setConsumer id consumer) := by
  refine inv.of_consumer id rfl rfl rfl rfl ?_ ?_ ?_ ?_ fun _ => own
  · intro one
    rw [State.setConsumer_items]
    by_cases same : one = slot
    · rw [same, State.setItem_self, sequence]
    · rw [State.setItem_of_ne _ same]
  · intro other different
    rw [State.setConsumer_of_ne _ different, State.setItem_consumers]
  · intro other different one
    rw [State.setConsumer_items]
    by_cases same : one = slot
    · rw [same, State.setItem_self, otherMarks other different]
    · rw [State.setItem_of_ne _ same]
  · rw [State.setConsumer_self]
    exact gating

theorem setConsumerSequence_inv {before after : State} (inv : Inv ring before) {id : Nat}
    (known : id < ring.consumerCount)
    (stepped : setConsumerSequence ring before id = some after) : Inv ring after := by
  have own := inv.consumers id known
  unfold setConsumerSequence at stepped
  simp only at stepped
  split at stepped
  case isFalse => cases stepped
  case isTrue ready =>
    cases stepped
    have published := own.ready ready
    have available := own.availableLe
    have claimed := inv.cursor_lt_next
    have shares := own.shares
    have obtained := own.obtained
    have marks := own.marks
    simp only [Consumer.outstanding, ready, GetStage.taken, List.append_nil,
      List.nil_append] at shares obtained marks
    refine inv.of_setItem rfl (fun _ different => Function.update_of_ne different _ _) le_rfl
      ⟨?_, ?_, ?_, ?_, ?_, ?_, ?_, ?_, ?_⟩ <;>
      simp only [State.setConsumer_self, State.setConsumer_cursor, State.setConsumer_items,
        State.setItem_cursor]
    · have nonneg := own.nextNonneg
      omega
    · omega
    · exact available
    · intro impossible
      cases impossible
    · exact own.account
    · rw [upTo_add_one own.nextNonneg]
      exact (shares.cons _).trans (List.perm_append_singleton _ _).symm
    · rw [upTo_add_one own.nextNonneg, GetStage.taken, obtained]
    · intro taken member
      rcases List.mem_cons.mp member with rfl | earlier
      · rw [State.setItem_self]
        exact Function.update_self _ _ _
      · have inOutstanding : taken ∈ (before.consumers id).outstanding :=
          List.mem_append_right _ earlier
        have bounds := inv.outstanding_bounds known inOutstanding
        have live := inv.outstanding_live known inOutstanding
        rw [State.setItem_of_ne _ (slot_ne (by omega) (by omega) (by omega))]
        exact marks taken earlier
    · exact own.reads

theorem setFromConsumerGet_inv {before after : State} (inv : Inv ring before) {id : Nat}
    (known : id < ring.consumerCount)
    (stepped : setFromConsumerGet ring before id = some after) : Inv ring after := by
  have own := inv.consumers id known
  unfold setFromConsumerGet at stepped
  simp only at stepped
  split at stepped
  case h_2 => cases stepped
  case h_1 taken marked =>
    cases stepped
    have shares := own.shares
    have obtained := own.obtained
    have marks := own.marks
    simp only [Consumer.outstanding, marked, GetStage.taken] at shares obtained marks
    refine inv.of_setItem rfl (fun _ _ => rfl) le_rfl ⟨?_, ?_, ?_, ?_, ?_, ?_, ?_, ?_, ?_⟩ <;>
      simp only [State.setConsumer_self, State.setConsumer_cursor, State.setConsumer_items,
        State.setItem_cursor, Consumer.outstanding, GetStage.taken, List.nil_append,
        List.append_nil, List.map_append, List.map_singleton]
    · exact own.nextNonneg
    · exact own.nextLe
    · exact own.availableLe
    · intro impossible
      cases impossible
    · exact own.account
    · exact ((List.perm_append_comm).append_right _).trans shares
    · exact obtained
    · intro one member
      have kept := marks one (List.perm_append_comm.subset member)
      by_cases same : ring.slot one = ring.slot taken
      · rw [same] at kept ⊢
        rw [State.setItem_self]
        exact kept
      · rw [State.setItem_of_ne _ same]
        exact kept
    · intro hold member seq sequenced
      rcases List.mem_append.mp member with old | new
      · exact own.reads hold old seq sequenced
      · rw [List.mem_singleton.mp new] at sequenced
        cases sequenced

/-- Progress of one release before its mutex section. -/
theorem setStage_inv {state : State} (inv : Inv ring state) {id index : Nat}
    (known : id < ring.consumerCount) {hold : Hold} {stage : ReleaseStage}
    (held : (state.consumers id).holds[index]? = some hold)
    (reads : ∀ seq, stage = .sequenced seq → seq = hold.taken) :
    Inv ring (setStage state id index ⟨hold.taken, stage⟩) := by
  have own := inv.consumers id known
  have same : ((state.consumers id).holds.set index ⟨hold.taken, stage⟩).map Hold.taken =
      (state.consumers id).holds.map Hold.taken := by
    rcases List.getElem?_eq_some_iff.mp held with ⟨inside, isHold⟩
    have current : hold.taken = ((state.consumers id).holds.map Hold.taken).get
        ⟨index, by rwa [List.length_map]⟩ := by
      simp [isHold]
    rw [List.map_set, current]
    exact List.set_getElem_self _
  refine inv.of_setConsumer le_rfl ⟨?_, ?_, ?_, ?_, ?_, ?_, ?_, ?_, ?_⟩ <;>
    simp only [State.setConsumer_self, State.setConsumer_cursor, State.setConsumer_items,
      Consumer.outstanding, same]
  · exact own.nextNonneg
  · exact own.nextLe
  · exact own.availableLe
  · exact own.ready
  · exact own.account
  · exact own.shares
  · exact own.obtained
  · exact own.marks
  · intro one member seq sequenced
    rcases List.mem_or_eq_of_mem_set member with old | new
    · exact own.reads one old seq sequenced
    · subst new
      exact reads seq sequenced

theorem readFlag_inv {before after : State} (inv : Inv ring before) {id index : Nat}
    (known : id < ring.consumerCount)
    (stepped : readFlag ring before id index = some after) : Inv ring after := by
  unfold readFlag at stepped
  split at stepped
  case h_2 => cases stepped
  case h_1 taken held =>
    cases stepped
    exact setStage_inv inv known held fun seq impossible => by cases impossible

/-- An item that a consumer holds is in the slot of its sequence. -/
theorem Inv.mem_outstanding {state : State} {id index : Nat} {hold : Hold}
    (held : (state.consumers id).holds[index]? = some hold) :
    hold.taken ∈ (state.consumers id).outstanding :=
  List.mem_append_right _ (List.mem_map_of_mem (List.mem_of_getElem? held))

/-- Whichever sequence a release reads, it is the one the item was taken
under. -/
theorem readSequence_inv {before after : State} (inv : Inv ring before) {id index : Nat}
    (known : id < ring.consumerCount)
    (stepped : readSequence ring before id index = some after) : Inv ring after := by
  unfold readSequence at stepped
  split at stepped
  case h_2 => cases stepped
  case h_1 taken fromConsumerGet held =>
    cases stepped
    have member := Inv.mem_outstanding held
    have bounds := inv.outstanding_bounds known member
    have live := inv.outstanding_live known member
    apply setStage_inv inv known held
    intro seq sequenced
    cases sequenced
    split
    · exact (inv.consumers id known).marks _ member
    · exact inv.filled _ bounds.1 live.1 live.2

theorem release_inv {before after : State} (inv : Inv ring before) {id index : Nat}
    (known : id < ring.consumerCount)
    (stepped : release before id index = some after) : Inv ring after := by
  have own := inv.consumers id known
  unfold release at stepped
  simp only at stepped
  split at stepped
  case h_2 => cases stepped
  case h_1 taken seq held =>
    rcases own.reads _ (List.mem_of_getElem? held) seq rfl with rfl
    cases stepped
    have member := Inv.mem_outstanding held
    have bounds := inv.outstanding_bounds known member
    have fresh : seq ∉ (before.consumers id).released.toFinset := fun released =>
      inv.outstanding_notMem known member (List.mem_toFinset.mp released)
    have account := own.account.release bounds.1 fresh (inv.pending_few known)
    have split : (before.consumers id).outstanding.Perm
        (seq :: ((before.consumers id).stage.taken ++
          ((before.consumers id).holds.eraseIdx index).map Hold.taken)) := by
      rcases List.getElem?_eq_some_iff.mp held with ⟨inside, isHold⟩
      have taken := (List.getElem_cons_eraseIdx_perm inside).map Hold.taken
      rw [isHold, List.map_cons] at taken
      exact (taken.symm.append_left _).trans List.perm_middle
    have insertion : ((before.consumers id).released ++ [seq]).toFinset =
        insert seq (before.consumers id).released.toFinset := by
      ext one
      simp
    refine inv.of_setConsumer (Books.sequence_le_release own.account bounds.1 fresh)
      ⟨?_, ?_, ?_, ?_, ?_, ?_, ?_, ?_, ?_⟩ <;>
      simp only [State.setConsumer_self, State.setConsumer_cursor, State.setConsumer_items]
    · exact own.nextNonneg
    · exact own.nextLe
    · exact own.availableLe
    · exact own.ready
    · rw [insertion]
      exact account
    · have moved := (split.append_right (before.consumers id).released).symm.trans own.shares
      refine List.Perm.trans ?_ moved
      rw [List.cons_append, ← List.append_assoc]
      exact List.perm_append_singleton _ _
    · exact own.obtained
    · intro one kept
      exact own.marks one (split.symm.subset (List.mem_cons_of_mem _ kept))
    · intro hold kept
      exact own.reads hold (List.mem_of_mem_eraseIdx kept)

/-- One step keeps the invariant. -/
theorem step_inv {before after : State} (inv : Inv ring before) {action : Action}
    (stepped : step ring before action = some after) : Inv ring after := by
  cases action with
  | next => exact next_inv inv stepped
  | reset => exact resetItem_inv inv stepped
  | setProducerSequence => exact setProducerSequence_inv inv stepped
  | publish => exact publish_inv inv stepped
  | waitFor id available =>
      rcases Option.ite_none_right_eq_some.mp stepped with ⟨known, stepped⟩
      exact waitFor_inv inv known stepped
  | setConsumerSequence id =>
      rcases Option.ite_none_right_eq_some.mp stepped with ⟨known, stepped⟩
      exact setConsumerSequence_inv inv known stepped
  | setFromConsumerGet id =>
      rcases Option.ite_none_right_eq_some.mp stepped with ⟨known, stepped⟩
      exact setFromConsumerGet_inv inv known stepped
  | readFlag id index =>
      rcases Option.ite_none_right_eq_some.mp stepped with ⟨known, stepped⟩
      exact readFlag_inv inv known stepped
  | readSequence id index =>
      rcases Option.ite_none_right_eq_some.mp stepped with ⟨known, stepped⟩
      exact readSequence_inv inv known stepped
  | release id index =>
      rcases Option.ite_none_right_eq_some.mp stepped with ⟨known, stepped⟩
      exact release_inv inv known stepped

/-! ### What every run preserves -/

theorem run_inv {before after : State} (inv : Inv ring before) {actions : List Action}
    (ran : run ring before actions = some after) : Inv ring after := by
  induction actions generalizing before with
  | nil =>
      cases ran
      exact inv
  | cons action rest inductionHypothesis =>
      rw [run, List.foldlM_cons] at ran
      rcases Option.bind_eq_some_iff.mp ran with ⟨middle, stepped, ran⟩
      exact inductionHypothesis (step_inv inv stepped) ran

/-- The sequence that the producer holds, from the claim to the publication. -/
def ProducerStage.claim : ProducerStage → Option Int
  | .idle => none
  | .claimed seq => some seq
  | .cleared seq => some seq
  | .got seq => some seq

theorem Inv.claim_eq {state : State} (inv : Inv ring state) {seq : Int}
    (claim : state.producer.claim = some seq) :
    seq = state.cursor + 1 ∧ state.nextSequence = state.cursor + 2 := by
  have producer := inv.producer
  unfold ProducerInv at producer
  unfold ProducerStage.claim at claim
  split at claim <;> simp_all

/-- Everything at least one ring before the next claim is obtained and released
by every consumer. -/
theorem Inv.passed {state : State} (inv : Inv ring state) {id : Nat}
    (known : id < ring.consumerCount) {seq : Int} (nonneg : 0 ≤ seq)
    (early : seq < state.nextSequence - ring.ringSize) :
    seq ∈ (state.consumers id).obtained ∧ seq ∈ (state.consumers id).released := by
  have own := inv.consumers id known
  have window := inv.window id known
  rw [own.account.gating] at window
  have released := List.mem_toFinset.mp (own.account.below seq nonneg (by omega))
  refine ⟨?_, released⟩
  have bounds := inv.released_bounds known released
  have passed : seq ∈ (state.consumers id).obtained ++ (state.consumers id).stage.taken := by
    rw [own.obtained]
    exact mem_upTo.mpr bounds
  rcases List.mem_append.mp passed with obtained | taken
  · exact obtained
  · exact absurd released (inv.outstanding_notMem known (List.mem_append_left _ taken))

/-- A consumer has obtained 0, 1, 2 and so on, each once. -/
theorem Inv.obtained_eq {state : State} (inv : Inv ring state) {id : Nat}
    (known : id < ring.consumerCount) :
    ∃ count, (state.consumers id).obtained = upTo count ∧ count ≤ state.cursor + 1 := by
  have own := inv.consumers id known
  have obtained := own.obtained
  have nonneg := own.nextNonneg
  have nextLe := own.nextLe
  cases stage : (state.consumers id).stage with
  | idle =>
      simp only [stage, GetStage.taken, List.append_nil] at obtained
      exact ⟨_, obtained, nextLe⟩
  | ready =>
      simp only [stage, GetStage.taken, List.append_nil] at obtained
      exact ⟨_, obtained, nextLe⟩
  | marked taken =>
      have positive : 0 < (state.consumers id).nextConsumerSequence := by
        have member : taken ∈ (state.consumers id).outstanding := by
          simp [Consumer.outstanding, stage, GetStage.taken]
        have bounds := inv.outstanding_bounds known member
        omega
      have last := upTo_add_one (show 0 ≤ (state.consumers id).nextConsumerSequence - 1 by omega)
      rw [sub_add_cancel] at last
      rw [stage, GetStage.taken, last] at obtained
      exact ⟨_, (List.append_inj' obtained rfl).1, by omega⟩

/-- The supply protocol, in every state that any interleaving reaches: each
consumer has obtained 0, 1, 2 and so on, each once and all of them published;
and when the producer has claimed a sequence, every consumer has obtained and
released each earlier sequence of its slot. -/
theorem supply_protocol {items : Nat → SupplyItem} {actions : List Action} {state : State}
    (ran : run ring (initial items) actions = some state) :
    (∀ id < ring.consumerCount, ∃ count, (state.consumers id).obtained = upTo count ∧
      ∀ seq ∈ (state.consumers id).obtained, seq ∈ state.published) ∧
    ∀ seq, state.producer.claim = some seq →
      ∀ previous, 0 ≤ previous → previous < seq → ring.slot previous = ring.slot seq →
        ∀ id < ring.consumerCount,
          previous ∈ (state.consumers id).obtained ∧ previous ∈ (state.consumers id).released := by
  have inv := run_inv (inv_initial ring items) ran
  constructor
  · intro id known
    rcases inv.obtained_eq known with ⟨count, obtained, published⟩
    refine ⟨count, obtained, fun seq member => ?_⟩
    rw [obtained] at member
    have bounds := mem_upTo.mp member
    rw [inv.published]
    exact mem_upTo.mpr ⟨bounds.1, by omega⟩
  · intro seq claim previous nonneg earlier sameSlot id known
    rcases inv.claim_eq claim with ⟨current, claimed⟩
    apply inv.passed known nonneg
    by_contra late
    exact slot_ne (by omega) (by omega) (by omega) sameSlot

/-- A ring of two slots and two consumers. -/
def sample : Ring where
  ringSize := 2
  consumerCount := 2
  reset := fun item => { item with producerSequence := 0, fromConsumerGet := false }
  positive := by decide
  small := by decide

/-- Get and publish one item. -/
def sampleProduce : List Action := [.next, .reset, .setProducerSequence, .publish]

/-- One consumer gets an item. -/
def sampleGet (id : Nat) (available : Int) : List Action :=
  [.waitFor id available, .setConsumerSequence id, .setFromConsumerGet id]

/-- One consumer releases one of its items. -/
def sampleRelease (id index : Nat) : List Action :=
  [.readFlag id index, .readSequence id index, .release id index]

/-- Both consumers take both items, the first releases them in the other order,
and the producer claims the first slot again. -/
def sampleActions : List Action :=
  sampleProduce ++ sampleProduce ++ sampleGet 0 1 ++ sampleGet 1 0 ++ sampleGet 0 1 ++
    sampleRelease 0 1 ++ sampleRelease 0 0 ++ sampleRelease 1 0 ++ [.next]

def sampleItem : SupplyItem := ⟨0, fun _ => 0, false⟩

theorem supply_protocol_sample :
    ∃ state, run sample (initial fun _ => sampleItem) sampleActions = some state ∧
      state.producer = .claimed 2 ∧
      (∃ count, (state.consumers 0).obtained = upTo count) ∧
      ∀ id < 2, 0 ∈ (state.consumers id).obtained ∧ 0 ∈ (state.consumers id).released := by
  have possible : (run sample (initial fun _ => sampleItem) sampleActions).isSome := by decide
  rcases Option.isSome_iff_exists.mp possible with ⟨state, ran⟩
  have claimed : ((run sample (initial fun _ => sampleItem) sampleActions).map
      State.producer) = some (.claimed 2) := by decide
  rw [ran, Option.map_some, Option.some_inj] at claimed
  have protocol := supply_protocol ran
  rcases protocol.1 0 (by decide) with ⟨count, obtained, -⟩
  refine ⟨state, ran, claimed, ⟨count, obtained⟩, ?_⟩
  exact protocol.2 2 (by rw [claimed]; rfl) 0 le_rfl (by decide) (by decide)

end Ring

end Dift.Supply
