import Dift.Foundation.Machine
import Dift.Foundation.Scan
import Dift.Disruptor.EventPoller

/-!
Owns the ring buffer with a `MultiProducerSequencer`: any number of producers
that claim ranges of sequences with `next` or `tryNext`, write events into their
slots and publish them, and event pollers that gate the producers. Every access
to shared state is a step of its own, so that the runs are all interleavings.
-/

namespace Dift.Disruptor

open Dift.Foundation

/-- A ring buffer and its pollers. Every poller gates the producers, and is
itself gated on the cursor or on a poller that was created before it. -/
structure RingBuffer where
  indexShift : Nat
  pollerCount : Nat
  follows : Nat → Option Nat
  small : indexShift ≤ 30
  polled : 0 < pollerCount
  earlier : ∀ id other, follows id = some other → other < id

/-- The size, a power of two. -/
def RingBuffer.bufferSize (buffer : RingBuffer) : Int := 2 ^ buffer.indexShift

def RingBuffer.index (buffer : RingBuffer) (sequence : Int) : Nat :=
  calculateIndex buffer.indexShift sequence

def RingBuffer.flag (buffer : RingBuffer) (sequence : Int) : BitVec 32 :=
  calculateAvailabilityFlag buffer.indexShift sequence

namespace MultiProducer

/-- A call of `next`, or of `tryNext` when it is only an attempt. -/
structure Call where
  attempt : Bool
  n : Int
deriving DecidableEq, Repr

/-- Where a producer is: at the top of the loop, about to read the cached gating
sequence, reading the gating sequences, about to store their minimum, about to
swap the cursor, or the owner of claimed sequences it has not published yet. -/
inductive Stage where
  | idle
  | looping (call : Call)
  | checking (call : Call) (current : Int)
  | scanning (call : Call) (current : Int) (scan : Scan Nat Int)
  | caching (call : Call) (current minimum : Int)
  | swapping (call : Call) (current : Int)
  | owning (next hi : Int)
deriving DecidableEq, Repr

/-- The shared state and where everyone is. The last three fields record the
ranges that were claimed, the sequences that were published, and what was last
written for each sequence. -/
structure State (β : Type*) where
  cursor : Int
  gatingSequenceCache : Int
  availableBuffer : Nat → BitVec 32
  entries : Nat → β
  producers : Nat → Stage
  pollers : Nat → EventPoller β
  claims : List (Int × Int)
  published : List Int
  content : Int → β

variable {β : Type*}

/-- After the constructors, whatever the entries hold. -/
def initial (buffer : RingBuffer) (entries : Nat → β) : State β where
  cursor := -1
  gatingSequenceCache := -1
  availableBuffer := fun _ => -1
  entries := entries
  producers := fun _ => .idle
  pollers := fun _ => .initial
  claims := []
  published := []
  content := fun sequence => entries (buffer.index sequence)

/-! ### Steps -/

inductive Action (β : Type*) where
  | call (id : Nat) (call : Call)
  | readCursor (id : Nat)
  | readCache (id : Nat)
  | readGating (id poller : Nat)
  | endScan (id : Nat)
  | storeCache (id : Nat)
  | compareAndSet (id : Nat)
  | write (id : Nat) (sequence : Int) (event : β)
  | setAvailable (id : Nat)
  | poll (id : Nat) (action : EventPoller.Action)

def State.setProducer (state : State β) (id : Nat) (stage : Stage) : State β :=
  { state with producers := Function.update state.producers id stage }

/-- The sequence a poller is gated on. -/
def State.gate (buffer : RingBuffer) (state : State β) (id : Nat) : Int :=
  match buffer.follows id with
  | none => state.cursor
  | some other => (state.pollers other).sequence

def State.isAvailable (buffer : RingBuffer) (state : State β) (sequence : Int) : Bool :=
  state.availableBuffer (buffer.index sequence) == buffer.flag sequence

/-- What a poller can see. -/
def State.view (buffer : RingBuffer) (state : State β) (id : Nat) : View β where
  gating := state.gate buffer id
  cursor := state.cursor
  isAvailable := state.isAvailable buffer
  entry := fun sequence => state.entries (buffer.index sequence)

variable (buffer : RingBuffer)

def Call.wrapPoint (call : Call) (current : Int) : Int :=
  current + call.n - buffer.bufferSize

/-- A call for less than one sequence throws. -/
def call (state : State β) (id : Nat) (call : Call) : Option (State β) :=
  match state.producers id with
  | .idle => if call.n < 1 then some state else some (state.setProducer id (.looping call))
  | _ => none

def readCursor (state : State β) (id : Nat) : Option (State β) :=
  match state.producers id with
  | .looping call => some (state.setProducer id (.checking call state.cursor))
  | _ => none

/-- The gating sequences are read when the cached one does not do. -/
def readCache (state : State β) (id : Nat) : Option (State β) :=
  match state.producers id with
  | .checking call current =>
      if call.wrapPoint buffer current > state.gatingSequenceCache ∨
          state.gatingSequenceCache > current then
        some (state.setProducer id
          (.scanning call current ⟨List.range buffer.pollerCount, current⟩))
      else some (state.setProducer id (.swapping call current))
  | _ => none

def readGating (state : State β) (id poller : Nat) : Option (State β) :=
  match state.producers id with
  | .scanning call current scan =>
      (scan.read poller (state.pollers poller).sequence).map fun after =>
        state.setProducer id (.scanning call current after)
  | _ => none

/-- `next` spins as long as there is no room; `tryNext` caches the minimum in any
case. -/
def endScan (state : State β) (id : Nat) : Option (State β) :=
  match state.producers id with
  | .scanning call current ⟨[], minimum⟩ =>
      if call.attempt = false ∧ call.wrapPoint buffer current > minimum then
        some (state.setProducer id (.looping call))
      else some (state.setProducer id (.caching call current minimum))
  | _ => none

/-- After caching, `next` goes round again, `tryNext` throws when there is no
room. -/
def storeCache (state : State β) (id : Nat) : Option (State β) :=
  match state.producers id with
  | .caching call current minimum =>
      let stage :=
        if call.attempt then
          if call.wrapPoint buffer current > minimum then .idle else .swapping call current
        else .looping call
      some { state.setProducer id stage with gatingSequenceCache := minimum }
  | _ => none

/-- A range is claimed. What a slot holds then counts as the content of its
sequence. -/
def State.claim (state : State β) (id : Nat) (hi : Int) : State β :=
  { state.setProducer id (.owning (state.cursor + 1) hi) with
    cursor := hi
    claims := state.claims ++ [(state.cursor + 1, hi)]
    content := fun sequence =>
      if state.cursor < sequence ∧ sequence ≤ hi then state.entries (buffer.index sequence)
      else state.content sequence }

def compareAndSet (state : State β) (id : Nat) : Option (State β) :=
  match state.producers id with
  | .swapping call current =>
      if state.cursor = current then some (state.claim buffer id (current + call.n))
      else some (state.setProducer id (.looping call))
  | _ => none

/-- A translator writes the event of a sequence that its producer owns. -/
def write (state : State β) (id : Nat) (sequence : Int) (event : β) : Option (State β) :=
  match state.producers id with
  | .owning next hi =>
      if next ≤ sequence ∧ sequence ≤ hi then
        some { state with
          entries := Function.update state.entries (buffer.index sequence) event
          content := Function.update state.content sequence event }
      else none
  | _ => none

/-- One round of `publish`. -/
def setAvailable (state : State β) (id : Nat) : Option (State β) :=
  match state.producers id with
  | .owning next hi =>
      some { state.setProducer id (if next < hi then .owning (next + 1) hi else .idle) with
        availableBuffer :=
          Function.update state.availableBuffer (buffer.index next) (buffer.flag next)
        published := state.published ++ [next] }
  | _ => none

def poll (state : State β) (id : Nat) (action : EventPoller.Action) : Option (State β) :=
  if id < buffer.pollerCount then
    (EventPoller.step (state.view buffer id) (state.pollers id) action).map fun after =>
      { state with pollers := Function.update state.pollers id after }
  else none

def step (state : State β) : Action β → Option (State β)
  | .call id call => MultiProducer.call state id call
  | .readCursor id => readCursor state id
  | .readCache id => readCache buffer state id
  | .readGating id poller => readGating state id poller
  | .endScan id => endScan buffer state id
  | .storeCache id => storeCache buffer state id
  | .compareAndSet id => compareAndSet buffer state id
  | .write id sequence event => write buffer state id sequence event
  | .setAvailable id => setAvailable buffer state id
  | .poll id action => poll buffer state id action

/-! ### The invariant -/

/-- The sequences a producer has claimed and not published. -/
def Stage.Owns (sequence : Int) : Stage → Prop
  | .owning next hi => next ≤ sequence ∧ sequence ≤ hi
  | _ => False

/-- What a producer knows, where it is: what it has read of the cursor and of the
gating sequences stays true from below. -/
def Knows (cursor : Int) (gating : Nat → Int) : Stage → Prop
  | .idle => True
  | .looping call => 1 ≤ call.n
  | .checking call current => 1 ≤ call.n ∧ current ≤ cursor
  | .scanning call current scan => 1 ≤ call.n ∧ current ≤ cursor ∧ scan.minimum ≤ current ∧
      scan.Below (· < buffer.pollerCount) gating
  | .caching call current minimum => 1 ≤ call.n ∧ current ≤ cursor ∧ minimum ≤ current ∧
      ∀ id < buffer.pollerCount, minimum ≤ gating id
  | .swapping call current => 1 ≤ call.n ∧ call.n ≤ buffer.bufferSize ∧
      ∀ id < buffer.pollerCount, call.wrapPoint buffer current ≤ gating id
  | .owning next hi => 0 ≤ next ∧ next ≤ hi ∧ hi ≤ cursor

def State.gating (state : State β) (id : Nat) : Int :=
  (state.pollers id).sequence

/-- The invariant. No claim laps a poller; a sequence up to the cursor is
published or has one owner; and the slots of the last lap carry the content of
their sequences, and the flag of this lap or of the one before. -/
structure Inv (state : State β) : Prop where
  cursor : -1 ≤ state.cursor
  cache : ∀ id < buffer.pollerCount, state.gatingSequenceCache ≤ state.gating id
  lapped : ∀ id < buffer.pollerCount, state.cursor - buffer.bufferSize ≤ state.gating id
  knows : ∀ id, Knows buffer state.cursor state.gating (state.producers id)
  owner : ∀ sequence first second, (state.producers first).Owns sequence →
    (state.producers second).Owns sequence → first = second
  published : ∀ sequence, sequence ∈ state.published ↔ 0 ≤ sequence ∧ sequence ≤ state.cursor ∧
    ∀ id, ¬ (state.producers id).Owns sequence
  once : state.published.Nodup
  flags : ∀ sequence, state.cursor - buffer.bufferSize < sequence → sequence ≤ state.cursor →
    state.availableBuffer (buffer.index sequence) =
      if sequence < 0 ∨ sequence ∈ state.published then buffer.flag sequence
      else buffer.flag (sequence - buffer.bufferSize)
  entries : ∀ sequence, state.cursor - buffer.bufferSize < sequence → sequence ≤ state.cursor →
    state.entries (buffer.index sequence) = state.content sequence
  pollers : ∀ id < buffer.pollerCount, EventPoller.Inv (state.gate buffer id)
    (· ∈ state.published) state.content (state.pollers id)
  claims : state.claims.flatMap (fun claim => sequences claim.1 claim.2) =
    sequences 0 state.cursor

variable {buffer}

theorem bufferSize_pos (buffer : RingBuffer) : 0 < buffer.bufferSize := by
  rw [RingBuffer.bufferSize]
  positivity

theorem flag_before {sequence : Int} (negative : sequence < 0)
    (last : -buffer.bufferSize ≤ sequence) : buffer.flag sequence = -1 :=
  calculateAvailabilityFlag_before buffer.small negative last

theorem inv_initial (buffer : RingBuffer) (entries : Nat → β) :
    Inv buffer (initial buffer entries) where
  cursor := le_rfl
  cache := fun _ _ => le_rfl
  lapped := by
    intro id known
    have positive := bufferSize_pos buffer
    simp only [initial, State.gating, EventPoller.initial]
    omega
  knows := fun _ => trivial
  owner := by
    intro sequence first second owns
    cases owns
  published := by
    intro sequence
    simp only [initial, List.not_mem_nil, false_iff]
    omega
  once := List.nodup_nil
  flags := by
    intro sequence inside atMost
    simp only [initial] at inside atMost
    rw [if_pos (.inl (by omega)), flag_before (by omega) (by omega)]
    rfl
  entries := fun _ _ _ => rfl
  pollers := by
    intro id known
    apply EventPoller.inv_initial
    unfold State.gate
    split <;> exact le_rfl
  claims := rfl

/-! ### Consequences -/

/-- A slot of the last lap belongs to one sequence. -/
theorem index_ne {first second : Int} (different : first ≠ second)
    (near : first - second < buffer.bufferSize) (nearBack : second - first < buffer.bufferSize) :
    buffer.index first ≠ buffer.index second :=
  calculateIndex_ne buffer.small different near nearBack

theorem index_sub (sequence : Int) :
    buffer.index (sequence - buffer.bufferSize) = buffer.index sequence :=
  calculateIndex_sub buffer.small sequence

/-- A poller's sequences are published. -/
theorem Inv.passed {state : State β} (inv : Inv buffer state) {id : Nat}
    (known : id < buffer.pollerCount) {sequence : Int} (nonneg : 0 ≤ sequence)
    (before : sequence ≤ state.gating id) : sequence ∈ state.published :=
  (inv.pollers id known).passed sequence nonneg before

/-- What is not published yet is ahead of every poller. -/
theorem Inv.gating_lt {state : State β} (inv : Inv buffer state) {id : Nat}
    (known : id < buffer.pollerCount) {sequence : Int} (nonneg : 0 ≤ sequence)
    (unpublished : sequence ∉ state.published) : state.gating id < sequence := by
  by_contra passed
  exact unpublished (inv.passed known nonneg (by omega))

/-- The sequences of an owner are claimed, not published and in the last lap. -/
theorem Inv.owned {state : State β} (inv : Inv buffer state) {id : Nat} {sequence : Int}
    (owns : (state.producers id).Owns sequence) :
    0 ≤ sequence ∧ sequence ≤ state.cursor ∧ sequence ∉ state.published ∧
      state.cursor - buffer.bufferSize < sequence := by
  have bounds : 0 ≤ sequence ∧ sequence ≤ state.cursor := by
    have knows := inv.knows id
    cases stage : state.producers id with
    | owning next hi =>
        rw [stage] at owns knows
        obtain ⟨nonneg, -, atMost⟩ := knows
        exact ⟨nonneg.trans owns.1, owns.2.trans atMost⟩
    | _ =>
        rw [stage] at owns
        cases owns
  have unpublished : sequence ∉ state.published := by
    intro member
    exact ((inv.published sequence).mp member).2.2 id owns
  have ahead := inv.gating_lt buffer.polled bounds.1 unpublished
  have lapped := inv.lapped 0 buffer.polled
  exact ⟨bounds.1, bounds.2, unpublished, by omega⟩

/-- The availability test tells what is published. -/
theorem Inv.isAvailable_iff {state : State β} (inv : Inv buffer state) {sequence : Int}
    (nonneg : 0 ≤ sequence) (inside : state.cursor - buffer.bufferSize < sequence)
    (atMost : sequence ≤ state.cursor) :
    state.isAvailable buffer sequence = true ↔ sequence ∈ state.published := by
  rw [State.isAvailable, inv.flags sequence inside atMost, beq_iff_eq]
  by_cases isPublished : sequence ∈ state.published
  · simp [isPublished]
  · rw [if_neg (by simp [isPublished, nonneg])]
    simp only [isPublished, iff_false]
    exact calculateAvailabilityFlag_sub_ne buffer.small sequence

theorem Inv.gate_le {state : State β} (inv : Inv buffer state) {id : Nat}
    (known : id < buffer.pollerCount) : state.gate buffer id ≤ state.cursor := by
  induction id using Nat.strong_induction_on with
  | h id inductionHypothesis =>
      unfold State.gate
      cases follows : buffer.follows id with
      | none => exact le_rfl
      | some other =>
          have earlier := buffer.earlier id other follows
          exact (inv.pollers other (earlier.trans known)).gated.trans
            (inductionHypothesis other earlier (earlier.trans known))

/-- What a poller sees ahead of it is the content of published sequences. -/
theorem Inv.shows {state : State β} (inv : Inv buffer state) {id : Nat}
    (known : id < buffer.pollerCount) :
    EventPoller.Shows (state.view buffer id) (state.gate buffer id) (· ∈ state.published)
      state.content (state.pollers id).sequence := by
  have lapped := inv.lapped id known
  have bounded := inv.gate_le known
  have start := (inv.pollers id known).start
  simp only [State.gating] at lapped
  refine ⟨rfl, ?_, ?_⟩
  · intro later ahead inside isAvailable
    exact (inv.isAvailable_iff (by omega) (by omega) (by omega)).mp isAvailable
  · intro later ahead inside isPublished
    exact inv.entries later (by omega) (by omega)

/-! ### One step -/

theorem Knows.mono {cursor later : Int} {gating since : Nat → Int} {stage : Stage}
    (knows : Knows buffer cursor gating stage) (rises : cursor ≤ later)
    (grown : ∀ id < buffer.pollerCount, gating id ≤ since id) :
    Knows buffer later since stage := by
  cases stage with
  | idle => trivial
  | looping call => exact knows
  | checking call current =>
      obtain ⟨positive, read⟩ := knows
      exact ⟨positive, read.trans rises⟩
  | scanning call current scan =>
      obtain ⟨positive, read, low, below⟩ := knows
      exact ⟨positive, read.trans rises, low, below.mono grown⟩
  | caching call current minimum =>
      obtain ⟨positive, read, low, below⟩ := knows
      exact ⟨positive, read.trans rises, low, fun id known =>
        (below id known).trans (grown id known)⟩
  | swapping call current =>
      obtain ⟨positive, small, below⟩ := knows
      exact ⟨positive, small, fun id known => (below id known).trans (grown id known)⟩
  | owning next hi =>
      obtain ⟨nonneg, isRange, atMost⟩ := knows
      exact ⟨nonneg, isRange, atMost.trans rises⟩

/-- A producer goes on, and may store the cached gating sequence. -/
theorem Inv.move {state : State β} (inv : Inv buffer state) {id : Nat} {stage : Stage}
    (knows : Knows buffer state.cursor state.gating stage)
    (owns : ∀ sequence, stage.Owns sequence ↔ (state.producers id).Owns sequence)
    {cache : Int} (bounded : ∀ poller < buffer.pollerCount, cache ≤ state.gating poller) :
    Inv buffer { state.setProducer id stage with gatingSequenceCache := cache } := by
  have same : ∀ sequence other, (Function.update state.producers id stage other).Owns sequence ↔
      (state.producers other).Owns sequence := by
    intro sequence other
    by_cases isThis : other = id
    · rw [isThis, Function.update_self]
      exact owns sequence
    · rw [Function.update_of_ne isThis]
  refine { inv with cache := bounded, knows := ?_, owner := ?_, published := ?_ }
  · intro other
    by_cases isThis : other = id
    · simp only [State.setProducer, isThis, Function.update_self]
      exact knows
    · simp only [State.setProducer, Function.update_of_ne isThis]
      exact inv.knows other
  · intro sequence first second firstOwns secondOwns
    exact inv.owner sequence first second ((same sequence first).mp firstOwns)
      ((same sequence second).mp secondOwns)
  · intro sequence
    simp only [State.setProducer, same]
    exact inv.published sequence

/-- A producer that owns nothing goes on. -/
theorem Inv.go {state : State β} (inv : Inv buffer state) {id : Nat} {stage : Stage}
    (knows : Knows buffer state.cursor state.gating stage)
    (ownsNone : ∀ sequence, ¬ stage.Owns sequence)
    (before : ∀ sequence, ¬ (state.producers id).Owns sequence) :
    Inv buffer (state.setProducer id stage) :=
  inv.move knows (fun sequence => iff_of_false (ownsNone sequence) (before sequence)) inv.cache

theorem not_owns {stages : Nat → Stage} {id : Nat} {stage : Stage} (isStage : stages id = stage)
    (ownsNone : ∀ sequence, ¬ stage.Owns sequence) : ∀ sequence, ¬ (stages id).Owns sequence := by
  rw [isStage]
  exact ownsNone

theorem call_inv {before after : State β} (inv : Inv buffer before) {id : Nat} {claim : Call}
    (stepped : call before id claim = some after) : Inv buffer after := by
  unfold call at stepped
  split at stepped
  case h_2 => cases stepped
  case h_1 stage =>
    split at stepped
    case isTrue => rwa [← Option.some_inj.mp stepped]
    case isFalse positive =>
      cases stepped
      exact inv.go (not_lt.mp positive) (fun _ owns => owns) (not_owns stage fun _ owns => owns)

theorem readCursor_inv {before after : State β} (inv : Inv buffer before) {id : Nat}
    (stepped : readCursor before id = some after) : Inv buffer after := by
  have knows := inv.knows id
  unfold readCursor at stepped
  split at stepped
  case h_2 => cases stepped
  case h_1 claim stage =>
    cases stepped
    rw [stage] at knows
    exact inv.go ⟨knows, le_rfl⟩ (fun _ owns => owns) (not_owns stage fun _ owns => owns)

/-- The fast path knows that there is room from the cached gating sequence. -/
theorem readCache_inv {before after : State β} (inv : Inv buffer before) {id : Nat}
    (stepped : readCache buffer before id = some after) : Inv buffer after := by
  have knows := inv.knows id
  unfold readCache at stepped
  split at stepped
  case h_2 => cases stepped
  case h_1 claim current stage =>
    rw [stage] at knows
    obtain ⟨positive, read⟩ := knows
    split at stepped
    case isTrue =>
      cases stepped
      refine inv.go ⟨positive, read, le_rfl, ?_⟩ (fun _ owns => owns) (not_owns stage fun _ owns => owns)
      exact Scan.below_start (fun poller known => List.mem_range.mpr known) _ _
    case isFalse room =>
      cases stepped
      rw [not_or, not_lt, not_lt] at room
      obtain ⟨enough, low⟩ := room
      have few : claim.n ≤ buffer.bufferSize := by
        unfold Call.wrapPoint at enough
        omega
      exact inv.go ⟨positive, few, fun poller known => enough.trans (inv.cache poller known)⟩
        (fun _ owns => owns) (not_owns stage fun _ owns => owns)

theorem readGating_inv {before after : State β} (inv : Inv buffer before) {id poller : Nat}
    (stepped : readGating before id poller = some after) : Inv buffer after := by
  have knows := inv.knows id
  unfold readGating at stepped
  split at stepped
  case h_2 => cases stepped
  case h_1 claim current scan stage =>
    rw [stage] at knows
    obtain ⟨positive, read, low, below⟩ := knows
    rcases Option.map_eq_some_iff.mp stepped with ⟨next, done, isAfter⟩
    cases isAfter
    have later := below.read done
    exact inv.go ⟨positive, read, later.2.trans low, later.1⟩ (fun _ owns => owns)
      (not_owns stage fun _ owns => owns)

theorem endScan_inv {before after : State β} (inv : Inv buffer before) {id : Nat}
    (stepped : endScan buffer before id = some after) : Inv buffer after := by
  have knows := inv.knows id
  unfold endScan at stepped
  split at stepped
  case h_2 => cases stepped
  case h_1 claim current minimum stage =>
    rw [stage] at knows
    obtain ⟨positive, read, low, below⟩ := knows
    split at stepped
    case isTrue =>
      cases stepped
      exact inv.go positive (fun _ owns => owns) (not_owns stage fun _ owns => owns)
    case isFalse =>
      cases stepped
      exact inv.go ⟨positive, read, low, below.all rfl⟩ (fun _ owns => owns)
        (not_owns stage fun _ owns => owns)

theorem storeCache_inv {before after : State β} (inv : Inv buffer before) {id : Nat}
    (stepped : storeCache buffer before id = some after) : Inv buffer after := by
  have knows := inv.knows id
  unfold storeCache at stepped
  split at stepped
  case h_2 => cases stepped
  case h_1 claim current minimum stage =>
    rw [stage] at knows
    obtain ⟨positive, read, low, below⟩ := knows
    cases stepped
    refine inv.move ?_ ?_ below
    · split
      · split
        · trivial
        case isFalse room =>
          rw [not_lt] at room
          have few : claim.n ≤ buffer.bufferSize := by
            unfold Call.wrapPoint at room
            omega
          exact ⟨positive, few, fun poller known => room.trans (below poller known)⟩
      · exact positive
    · intro sequence
      apply iff_of_false ?_ (not_owns stage (fun _ owns => owns) sequence)
      intro owns
      split at owns
      · split at owns <;> exact owns
      · exact owns

/-- A claim: the slots of the new sequences are those of sequences that every
poller has passed. -/
theorem Inv.claim {state : State β} (inv : Inv buffer state) {id : Nat} {claim : Call}
    (stage : state.producers id = .swapping claim state.cursor) :
    Inv buffer (state.claim buffer id (state.cursor + claim.n)) := by
  have start := inv.cursor
  have knows := inv.knows id
  rw [stage] at knows
  obtain ⟨positive, few, room⟩ := knows
  have rises : state.cursor ≤ state.cursor + claim.n := by omega
  have old : ∀ sequence, sequence ∈ state.published → sequence ≤ state.cursor :=
    fun sequence member => ((inv.published sequence).mp member).2.1
  have unowned : ∀ sequence other, sequence ≤ state.cursor →
      ((Function.update state.producers id
        (.owning (state.cursor + 1) (state.cursor + claim.n)) other).Owns sequence ↔
          (state.producers other).Owns sequence) := by
    intro sequence other claimed
    by_cases isThis : other = id
    · rw [isThis, Function.update_self, stage]
      exact iff_of_false (fun owns => absurd owns.1 (by omega)) (fun owns => owns)
    · rw [Function.update_of_ne isThis]
  have fresh : ∀ sequence other, state.cursor < sequence →
      (Function.update state.producers id
        (.owning (state.cursor + 1) (state.cursor + claim.n)) other).Owns sequence →
          other = id := by
    intro sequence other unclaimed owns
    by_contra different
    rw [Function.update_of_ne different] at owns
    have claimed := (inv.owned owns).2.1
    omega
  unfold State.claim
  constructor
  · exact start.trans rises
  · exact inv.cache
  · exact room
  · intro other
    by_cases isThis : other = id
    · simp only [State.setProducer, isThis, Function.update_self]
      exact ⟨by omega, by omega, le_rfl⟩
    · simp only [State.setProducer, Function.update_of_ne isThis]
      exact (inv.knows other).mono rises fun _ _ => le_rfl
  · intro sequence first second firstOwns secondOwns
    by_cases claimed : sequence ≤ state.cursor
    · exact inv.owner sequence first second ((unowned sequence first claimed).mp firstOwns)
        ((unowned sequence second claimed).mp secondOwns)
    · rw [fresh sequence first (by omega) firstOwns, fresh sequence second (by omega) secondOwns]
  · intro sequence
    simp only [State.setProducer]
    by_cases claimed : sequence ≤ state.cursor
    · simp only [unowned sequence _ claimed]
      rw [inv.published]
      constructor
      · intro all
        exact ⟨all.1, by omega, all.2.2⟩
      · intro all
        exact ⟨all.1, claimed, all.2.2⟩
    · constructor
      · intro member
        exact absurd (old sequence member) claimed
      · intro all
        have owns : (Function.update state.producers id
            (.owning (state.cursor + 1) (state.cursor + claim.n)) id).Owns sequence := by
          rw [Function.update_self]
          exact ⟨by omega, all.2.1⟩
        exact absurd owns (all.2.2 id)
  · exact inv.once
  · intro sequence inside atMost
    simp only at inside atMost
    by_cases claimed : sequence ≤ state.cursor
    · exact inv.flags sequence (by omega) claimed
    · have slot := inv.flags (sequence - buffer.bufferSize) (by omega) (by omega)
      have behind : sequence - buffer.bufferSize < 0 ∨
          sequence - buffer.bufferSize ∈ state.published := by
        have gated := room 0 buffer.polled
        unfold Call.wrapPoint at gated
        by_cases negative : sequence - buffer.bufferSize < 0
        · exact .inl negative
        · exact .inr (inv.passed buffer.polled (by omega) (by omega))
      have unpublished : ¬ (sequence < 0 ∨ sequence ∈ state.published) := by
        intro either
        cases either with
        | inl negative => omega
        | inr member => exact claimed (old sequence member)
      rw [if_pos behind, index_sub] at slot
      exact slot.trans (if_neg unpublished).symm
  · intro sequence inside atMost
    simp only at inside atMost
    simp only [State.setProducer]
    split
    case isTrue => rfl
    case isFalse unclaimed => exact inv.entries sequence (by omega) (by omega)
  · intro poller known
    apply (inv.pollers poller known).mono
    · unfold State.gate
      split
      · exact rises
      · exact le_rfl
    · exact fun _ member => member
    · intro sequence member
      have claimed := old sequence member
      simp only
      rw [if_neg (by omega)]
  · simp only [List.flatMap_append, inv.claims]
    rw [← sequences_append (show (0 : Int) ≤ state.cursor + 1 by omega) rises]
    simp

theorem compareAndSet_inv {before after : State β} (inv : Inv buffer before) {id : Nat}
    (stepped : compareAndSet buffer before id = some after) : Inv buffer after := by
  have knows := inv.knows id
  unfold compareAndSet at stepped
  split at stepped
  case h_2 => cases stepped
  case h_1 claim current stage =>
    rw [stage] at knows
    split at stepped
    case isTrue same =>
      subst same
      cases stepped
      exact inv.claim stage
    case isFalse =>
      cases stepped
      exact inv.go knows.1 (fun _ owns => owns) (not_owns stage fun _ owns => owns)

/-- An owner writes only where nobody else looks. -/
theorem write_inv {before after : State β} (inv : Inv buffer before) {id : Nat} {written : Int}
    {event : β} (stepped : write buffer before id written event = some after) :
    Inv buffer after := by
  unfold write at stepped
  split at stepped
  case h_2 => cases stepped
  case h_1 next hi stage =>
    rcases Option.ite_none_right_eq_some.mp stepped with ⟨owns, isAfter⟩
    cases isAfter
    have owned : (before.producers id).Owns written := by
      rw [stage]
      exact owns
    obtain ⟨nonneg, claimed, unpublished, recent⟩ := inv.owned owned
    refine { inv with entries := ?_, pollers := ?_ }
    · intro sequence inside atMost
      by_cases isThis : sequence = written
      · simp only [isThis, Function.update_self]
      · simp only at inside atMost
        have kept := inv.entries sequence inside atMost
        have elsewhere : buffer.index sequence ≠ buffer.index written :=
          index_ne isThis (by omega) (by omega)
        exact (Function.update_of_ne elsewhere _ _).trans
          (kept.trans (Function.update_of_ne isThis _ _).symm)
    · intro poller known
      apply (inv.pollers poller known).mono le_rfl (fun _ member => member)
      intro sequence member
      apply Function.update_of_ne
      intro isThis
      rw [isThis] at member
      exact unpublished member

/-- Publishing the next sequence of an owner. -/
theorem setAvailable_inv {before after : State β} (inv : Inv buffer before) {id : Nat}
    (stepped : setAvailable buffer before id = some after) : Inv buffer after := by
  have knows := inv.knows id
  unfold setAvailable at stepped
  split at stepped
  case h_2 => cases stepped
  case h_1 next hi stage =>
    cases stepped
    rw [stage] at knows
    obtain ⟨nonneg, atMost, claimed⟩ := knows
    have owns : (before.producers id).Owns next := by
      rw [stage]
      exact ⟨le_rfl, atMost⟩
    obtain ⟨-, -, unpublished, recent⟩ := inv.owned owns
    have rest : ∀ sequence, (if next < hi then Stage.owning (next + 1) hi else .idle).Owns sequence ↔
        (before.producers id).Owns sequence ∧ sequence ≠ next := by
      intro sequence
      rw [stage]
      split
      · simp only [Stage.Owns]
        omega
      · simp only [Stage.Owns, false_iff]
        omega
    have same : ∀ sequence other, (Function.update before.producers id
        (if next < hi then Stage.owning (next + 1) hi else .idle) other).Owns sequence ↔
          (before.producers other).Owns sequence ∧ (other = id → sequence ≠ next) := by
      intro sequence other
      by_cases isThis : other = id
      · rw [isThis, Function.update_self, rest]
        simp
      · rw [Function.update_of_ne isThis]
        simp [isThis]
    constructor
    · exact inv.cursor
    · exact inv.cache
    · exact inv.lapped
    · intro other
      by_cases isThis : other = id
      · simp only [State.setProducer, isThis, Function.update_self]
        split
        · exact ⟨by omega, by omega, claimed⟩
        · trivial
      · simp only [State.setProducer, Function.update_of_ne isThis]
        exact inv.knows other
    · intro sequence first second firstOwns secondOwns
      exact inv.owner sequence first second ((same sequence first).mp firstOwns).1
        ((same sequence second).mp secondOwns).1
    · intro sequence
      simp only [State.setProducer, same, List.mem_append, List.mem_singleton, inv.published]
      constructor
      · intro either
        rcases either with all | isNext
        · exact ⟨all.1, all.2.1, fun other owned => all.2.2 other owned.1⟩
        · subst isNext
          refine ⟨nonneg, by omega, fun other owned => ?_⟩
          exact owned.2 (inv.owner sequence other id owned.1 owns) rfl
      · intro all
        by_cases isNext : sequence = next
        · exact .inr isNext
        · exact .inl ⟨all.1, all.2.1, fun other owned => all.2.2 other ⟨owned, fun _ => isNext⟩⟩
    · exact inv.once.append (List.nodup_singleton next) (by simpa using unpublished)
    · intro sequence inside atMostCursor
      simp only [State.setProducer] at inside atMostCursor
      by_cases isThis : sequence = next
      · subst isThis
        simp
      · simp only [List.mem_append, List.mem_singleton, isThis, or_false]
        rw [Function.update_of_ne (index_ne isThis (by omega) (by omega))]
        exact inv.flags sequence inside atMostCursor
    · exact inv.entries
    · intro poller known
      exact (inv.pollers poller known).mono le_rfl (fun _ member => List.mem_append_left _ member)
        fun _ _ => rfl
    · exact inv.claims

theorem poll_inv {before after : State β} (inv : Inv buffer before) {id : Nat}
    {action : EventPoller.Action} (stepped : poll buffer before id action = some after) :
    Inv buffer after := by
  rcases Option.ite_none_right_eq_some.mp stepped with ⟨known, stepped⟩
  rcases Option.map_eq_some_iff.mp stepped with ⟨poller, polled, isAfter⟩
  cases isAfter
  have moved := (inv.pollers id known).step (inv.shows known) polled
  have grown : ∀ other, before.gating other ≤
      State.gating { before with pollers := Function.update before.pollers id poller } other := by
    intro other
    simp only [State.gating]
    by_cases isThis : other = id
    · rw [isThis, Function.update_self]
      exact moved.2
    · rw [Function.update_of_ne isThis]
  refine { inv with cache := ?_, lapped := ?_, knows := ?_, pollers := ?_ }
  · exact fun other isKnown => (inv.cache other isKnown).trans (grown other)
  · exact fun other isKnown => (inv.lapped other isKnown).trans (grown other)
  · exact fun other => (inv.knows other).mono le_rfl fun one _ => grown one
  · intro other isKnown
    have rises : before.gate buffer other ≤
        State.gate buffer { before with pollers := Function.update before.pollers id poller }
          other := by
      unfold State.gate
      split
      · exact le_rfl
      case h_2 followed _ => exact grown followed
    by_cases isThis : other = id
    · subst isThis
      simp only [Function.update_self]
      exact moved.1.mono rises (fun _ member => member) fun _ _ => rfl
    · simp only [Function.update_of_ne isThis]
      exact (inv.pollers other isKnown).mono rises (fun _ member => member) fun _ _ => rfl

theorem step_inv {before after : State β} {action : Action β} (inv : Inv buffer before)
    (stepped : step buffer before action = some after) : Inv buffer after := by
  cases action with
  | call id claim => exact call_inv inv stepped
  | readCursor id => exact readCursor_inv inv stepped
  | readCache id => exact readCache_inv inv stepped
  | readGating id poller => exact readGating_inv inv stepped
  | endScan id => exact endScan_inv inv stepped
  | storeCache id => exact storeCache_inv inv stepped
  | compareAndSet id => exact compareAndSet_inv inv stepped
  | write id sequence event => exact write_inv inv stepped
  | setAvailable id => exact setAvailable_inv inv stepped
  | poll id action => exact poll_inv inv stepped

/-- What is published stays published, with what it holds. -/
theorem step_keeps {before after : State β} {action : Action β} (inv : Inv buffer before)
    (stepped : step buffer before action = some after) {sequence : Int}
    (member : sequence ∈ before.published) :
    sequence ∈ after.published ∧ after.content sequence = before.content sequence := by
  cases action with
  | call id claim => grind [step, call, State.setProducer]
  | readCursor id => grind [step, readCursor, State.setProducer]
  | readCache id => grind [step, readCache, State.setProducer]
  | readGating id poller =>
      grind [step, readGating, State.setProducer, Option.map_eq_some_iff]
  | endScan id => grind [step, endScan, State.setProducer]
  | storeCache id => grind [step, storeCache, State.setProducer]
  | compareAndSet id => grind [step, compareAndSet, State.claim, State.setProducer, inv.published]
  | setAvailable id => grind [step, setAvailable, State.setProducer]
  | poll id action => grind [step, poll, Option.map_eq_some_iff]
  | write id written event =>
      simp only [step, write] at stepped
      split at stepped
      case h_2 => cases stepped
      case h_1 next hi stage =>
        rcases Option.ite_none_right_eq_some.mp stepped with ⟨owns, isAfter⟩
        cases isAfter
        refine ⟨member, Function.update_of_ne ?_ _ _⟩
        intro isWritten
        have owned : (before.producers id).Owns written := by
          rw [stage]
          exact owns
        rw [isWritten] at member
        exact (inv.owned owned).2.2.1 member

theorem run_keeps {before after : State β} {actions : List (Action β)} (inv : Inv buffer before)
    (ran : Machine.run (step buffer) before actions = some after) {sequence : Int}
    (member : sequence ∈ before.published) :
    sequence ∈ after.published ∧ after.content sequence = before.content sequence := by
  induction actions generalizing before with
  | nil =>
      cases ran
      exact ⟨member, rfl⟩
  | cons action rest inductionHypothesis =>
      rcases Machine.run_cons_eq_some_iff.mp ran with ⟨middle, stepped, ran⟩
      have first := step_keeps inv stepped member
      have later := inductionHypothesis (step_inv inv stepped) ran first.1
      exact ⟨later.1, later.2.trans first.2⟩

/-! ### Every run -/

theorem run_inv {entries : Nat → β} {actions : List (Action β)} {state : State β}
    (ran : Machine.run (step buffer) (initial buffer entries) actions = some state) :
    Inv buffer state :=
  Machine.run_invariant (Inv buffer) step_inv (inv_initial buffer entries) ran

/-- Two slots, and two pollers, one behind the other. -/
def sampleBuffer : RingBuffer where
  indexShift := 1
  pollerCount := 2
  follows := fun id => if id = 1 then some 0 else none
  small := by decide
  polled := Nat.two_pos
  earlier := by
    intro id other follows
    split at follows
    · cases follows
      omega
    · cases follows

/-- Two producers, of which the second has to claim again and publishes first. -/
def sampleActions : List (Action Nat) :=
  [.call 0 ⟨false, 1⟩, .call 1 ⟨true, 1⟩, .readCursor 0, .readCursor 1, .readCache 0,
    .readCache 1, .compareAndSet 0, .compareAndSet 1, .readCursor 1, .readCache 1,
    .compareAndSet 1, .write 1 1 7, .setAvailable 1]

/-- The first poller finds nothing before the first sequence is published, then
handles both. -/
def samplePolls : List (Action Nat) :=
  [.poll 0 .begin, .poll 0 .scan, .poll 0 .miss, .write 0 0 5, .setAvailable 0, .poll 0 .begin,
    .poll 0 .scan, .poll 0 .scan, .poll 0 .scan, .poll 0 (.handle .more), .poll 0 (.handle .more),
    .poll 0 .store]

/-- The producer that moves. -/
def Action.producer : Action β → Option Nat
  | .call id _ => some id
  | .readCursor id => some id
  | .readCache id => some id
  | .readGating id _ => some id
  | .endScan id => some id
  | .storeCache id => some id
  | .compareAndSet id => some id
  | .write id _ _ => some id
  | .setAvailable id => some id
  | .poll _ _ => none

/-- What a producer can come to by steps of its own. -/
def Alone (buffer : RingBuffer) (id : Nat) (before after : State β) : Prop :=
  ∃ actions : List (Action β), (∀ action ∈ actions, action.producer = some id) ∧
    Machine.run (step buffer) before actions = some after

theorem Alone.refl (id : Nat) (state : State β) : Alone buffer id state state :=
  ⟨[], by simp, rfl⟩

theorem Alone.step {id : Nat} {before middle after : State β} (action : Action β)
    (own : action.producer = some id) (stepped : step buffer before action = some middle)
    (alone : Alone buffer id middle after) : Alone buffer id before after := by
  rcases alone with ⟨actions, all, ran⟩
  refine ⟨action :: actions, ?_, Machine.run_cons_eq_some_iff.mpr ⟨middle, stepped, ran⟩⟩
  intro one member
  cases member with
  | head => exact own
  | tail _ member => exact all one member

theorem Alone.trans {id : Nat} {before middle after : State β}
    (first : Alone buffer id before middle) (second : Alone buffer id middle after) :
    Alone buffer id before after := by
  rcases first with ⟨actions, all, ran⟩
  rcases second with ⟨more, allMore, ranMore⟩
  refine ⟨actions ++ more, ?_, Machine.run_append_eq_some_iff.mpr ⟨middle, ran, ranMore⟩⟩
  intro action member
  cases List.mem_append.mp member with
  | inl early => exact all action early
  | inr late => exact allMore action late

theorem step_pollers {id : Nat} {before after : State β} {action : Action β}
    (own : action.producer = some id) (stepped : step buffer before action = some after) :
    after.pollers = before.pollers := by
  cases action with
  | call id claim => grind [MultiProducer.step, call, State.setProducer]
  | readCursor id => grind [MultiProducer.step, readCursor, State.setProducer]
  | readCache id => grind [MultiProducer.step, readCache, State.setProducer]
  | readGating id poller =>
      grind [MultiProducer.step, readGating, State.setProducer, Option.map_eq_some_iff]
  | endScan id => grind [MultiProducer.step, endScan, State.setProducer]
  | storeCache id => grind [MultiProducer.step, storeCache, State.setProducer]
  | compareAndSet id => grind [MultiProducer.step, compareAndSet, State.claim, State.setProducer]
  | write id sequence event => grind [MultiProducer.step, write]
  | setAvailable id => grind [MultiProducer.step, setAvailable, State.setProducer]
  | poll id action => cases own

theorem Alone.pollers {id : Nat} {before after : State β} (alone : Alone buffer id before after) :
    after.pollers = before.pollers := by
  rcases alone with ⟨actions, all, ran⟩
  induction actions generalizing before with
  | nil =>
      cases ran
      rfl
  | cons action rest inductionHypothesis =>
      rcases Machine.run_cons_eq_some_iff.mp ran with ⟨middle, stepped, ran⟩
      rw [inductionHypothesis (fun one member => all one (List.mem_cons_of_mem _ member)) ran]
      exact step_pollers (all action List.mem_cons_self) stepped

@[simp] theorem State.setProducer_self (state : State β) (id : Nat) (stage : Stage) :
    (state.setProducer id stage).producers id = stage :=
  Function.update_self _ _ _

@[simp] theorem State.setProducer_setProducer (state : State β) (id : Nat) (first second : Stage) :
    (state.setProducer id first).setProducer id second = state.setProducer id second := by
  simp [State.setProducer]

/-- The whole scan, with nobody moving meanwhile. -/
theorem alone_scan {id : Nat} {call : Call} {current bound : Int} (pending : List Nat)
    {minimum : Int} {state : State β} (low : bound ≤ minimum)
    (above : ∀ poller ∈ pending, bound ≤ state.gating poller) :
    ∃ least, bound ≤ least ∧ least ≤ minimum ∧
      Alone buffer id (state.setProducer id (.scanning call current ⟨pending, minimum⟩))
        (state.setProducer id (.scanning call current ⟨[], least⟩)) := by
  induction pending generalizing minimum with
  | nil => exact ⟨minimum, low, le_rfl, Alone.refl id _⟩
  | cons poller rest inductionHypothesis =>
      have further : bound ≤ min minimum (state.gating poller) :=
        le_min low (above poller List.mem_cons_self)
      rcases inductionHypothesis further fun other member =>
        above other (List.mem_cons_of_mem _ member) with ⟨least, high, small, alone⟩
      refine ⟨least, high, small.trans (min_le_left _ _), ?_⟩
      refine alone.step (.readGating id poller) rfl ?_
      simp [MultiProducer.step, readGating, Scan.read, State.gating, State.setProducer]

/-- A swap that nobody comes before succeeds. -/
theorem alone_swap {id : Nat} {call : Call} {state : State β}
    (stage : state.producers id = .swapping call state.cursor) :
    Alone buffer id state (state.claim buffer id (state.cursor + call.n)) := by
  refine (Alone.refl id _).step (.compareAndSet id) rfl ?_
  simp [MultiProducer.step, compareAndSet, stage]

/-- When the cached gating sequence does, the producer goes straight to the
swap. -/
theorem alone_fast {id : Nat} {call : Call} {state : State β}
    (stage : state.producers id = .looping call)
    (enough : call.wrapPoint buffer state.cursor ≤ state.gatingSequenceCache)
    (low : state.gatingSequenceCache ≤ state.cursor) :
    ∃ after, Alone buffer id state after ∧
      after.producers id = .owning (state.cursor + 1) (state.cursor + call.n) := by
  have read : step buffer state (.readCursor id) =
      some (state.setProducer id (.checking call state.cursor)) := by
    simp [MultiProducer.step, readCursor, stage]
  have checked : step buffer (state.setProducer id (.checking call state.cursor))
      (.readCache id) = some (state.setProducer id (.swapping call state.cursor)) := by
    simp only [MultiProducer.step, readCache, State.setProducer_self,
      State.setProducer_setProducer]
    exact if_neg (not_or.mpr ⟨not_lt.mpr enough, not_lt.mpr low⟩)
  have swap : Alone buffer id (state.setProducer id (.swapping call state.cursor)) _ :=
    alone_swap (State.setProducer_self _ _ _)
  exact ⟨_, (swap.step _ rfl checked).step _ rfl read, State.setProducer_self _ _ _⟩

/-- With room, a producer that nobody disturbs gets its range. -/
theorem Inv.alone_claims {state : State β} (inv : Inv buffer state) {id : Nat} {call : Call}
    (stage : state.producers id = .looping call)
    (room : ∀ poller < buffer.pollerCount,
      call.wrapPoint buffer state.cursor ≤ state.gating poller) :
    ∃ after, Alone buffer id state after ∧
      after.producers id = .owning (state.cursor + 1) (state.cursor + call.n) := by
  by_cases fast : call.wrapPoint buffer state.cursor ≤ state.gatingSequenceCache ∧
      state.gatingSequenceCache ≤ state.cursor
  · exact alone_fast stage fast.1 fast.2
  · have behind : call.wrapPoint buffer state.cursor ≤ state.cursor :=
      ((room 0 buffer.polled).trans (inv.pollers 0 buffer.polled).gated).trans
        (inv.gate_le buffer.polled)
    have read : step buffer state (.readCursor id) =
        some (state.setProducer id (.checking call state.cursor)) := by
      simp [MultiProducer.step, readCursor, stage]
    have checked : step buffer (state.setProducer id (.checking call state.cursor))
        (.readCache id) = some (state.setProducer id (.scanning call state.cursor
          ⟨List.range buffer.pollerCount, state.cursor⟩)) := by
      simp only [MultiProducer.step, readCache, State.setProducer_self,
        State.setProducer_setProducer]
      rw [not_and_or, not_le, not_le] at fast
      exact if_pos fast
    have whole : ∃ least, call.wrapPoint buffer state.cursor ≤ least ∧ least ≤ state.cursor ∧
        Alone buffer id (state.setProducer id (.scanning call state.cursor
            ⟨List.range buffer.pollerCount, state.cursor⟩))
          (state.setProducer id (.scanning call state.cursor ⟨[], least⟩)) :=
      alone_scan _ behind fun poller member => room poller (List.mem_range.mp member)
    rcases whole with ⟨least, enough, low, scan⟩
    have ended : step buffer (state.setProducer id (.scanning call state.cursor ⟨[], least⟩))
        (.endScan id) = some (state.setProducer id (.caching call state.cursor least)) := by
      simp only [MultiProducer.step, endScan, State.setProducer_self,
        State.setProducer_setProducer]
      exact if_neg fun spins => not_lt.mpr enough spins.2
    -- `next` now finds the cached sequence good enough, `tryNext` swaps at once
    have stored : ∃ middle, step buffer (state.setProducer id (.caching call state.cursor least))
        (.storeCache id) = some middle ∧ ∃ after, Alone buffer id middle after ∧
          after.producers id = .owning (state.cursor + 1) (state.cursor + call.n) := by
      cases attempt : call.attempt with
      | false =>
          refine ⟨{ state.setProducer id (.looping call) with gatingSequenceCache := least }, ?_,
            alone_fast (State.setProducer_self state id (.looping call)) enough low⟩
          simp only [MultiProducer.step, storeCache, State.setProducer_self, attempt,
            State.setProducer_setProducer]
          rfl
      | true =>
          refine ⟨{ state.setProducer id (.swapping call state.cursor) with
            gatingSequenceCache := least }, ?_, _,
            alone_swap (State.setProducer_self state id (.swapping call state.cursor)),
            State.setProducer_self _ _ _⟩
          simp only [MultiProducer.step, storeCache, State.setProducer_self, attempt, if_true,
            State.setProducer_setProducer, if_neg (not_lt.mpr enough)]
    rcases stored with ⟨middle, stored, after, rest, owning⟩
    exact ⟨after, ((scan.trans ((rest.step _ rfl stored).step _ rfl ended)).step _ rfl
      checked).step _ rfl read, owning⟩

end MultiProducer

end Dift.Disruptor
