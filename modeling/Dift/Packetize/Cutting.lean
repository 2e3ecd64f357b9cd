import Dift.Foundation.Loop
import Dift.Packetize.Socket

/-!
Owns the abstract sender behind the packetizing loops. A job cuts a list of
bytes into pieces, numbers them, marks the very first and the very last one and
hands each piece with its headers to the socket; before the first piece has
gone out a refusal for its size makes it try again with a smaller one. No
memory, no pointers and no flag that outlives its round are left. What is
proved here once, the numbering, the marks and termination, holds of every
sender that runs in lockstep with a job.
-/

namespace Dift.Packetize

open Dift.Foundation

/-- A flag that goes up only after the first loop, with nothing left to send,
is down while the loop runs. -/
theorem flag_eq_false {α : Type*} [Preorder α] [Zero α] {flag firstLoop : Bool} {left : α}
    (ended : flag = true → firstLoop = false ∧ left = 0) (running : firstLoop = true ∨ 0 < left) :
    flag = false := by
  by_contra up
  rcases ended (by simpa using up) with ⟨past, empty⟩
  rcases running with looping | some
  · rw [past] at looping
    cases looping
  · rw [empty] at some
    exact lt_irrefl 0 some

/-- How a sender counts: what happens to the number of a packet once it is in
the header, when the packet was refused and when it was sent. Refusals leave no
trace, and a sent packet moves the number on by `advance`. -/
structure Numbering where
  afterHeader : UInt32 → UInt32
  afterRefusal : UInt32 → UInt32
  afterSend : UInt32 → Nat → UInt32
  advance : Nat → UInt32
  refusal_undoes : ∀ counter, afterRefusal (afterHeader counter) = counter
  send_advances : ∀ counter count, afterSend (afterHeader counter) count = counter + advance count

/-- Version 2: the number is the offset of the data and moves after a send. -/
def Numbering.byOffset : Numbering where
  afterHeader := fun localOffset => localOffset
  afterRefusal := fun localOffset => localOffset
  afterSend := fun localOffset count => localOffset + UInt32.ofNat count
  advance := UInt32.ofNat
  refusal_undoes := fun _ => rfl
  send_advances := fun _ _ => rfl

/-- Version 1: the packet counter is incremented with the header and
decremented again after a refusal. -/
def Numbering.byPacket : Numbering where
  afterHeader := fun packetCounter => packetCounter + 1
  afterRefusal := fun packetCounter => packetCounter - 1
  afterSend := fun packetCounter _ => packetCounter
  advance := fun _ => 1
  refusal_undoes := fun packetCounter => by simp
  send_advances := fun _ _ => rfl

/-- A piece with its number and its two marks. -/
structure Cut where
  counter : UInt32
  first : Bool
  last : Bool
  data : List UInt8
deriving DecidableEq, Repr

/-- What one call is to send and how its packets look. -/
structure Job where
  data : List UInt8
  offset : UInt32
  maxUdpPayload : Int
  firstBuffer : Bool
  lastBuffer : Bool
  headerBytes : Nat
  headers : UInt32 → Bool → Bool → List UInt8
  headers_length : ∀ counter first last, (headers counter first last).length = headerBytes
  advance : Nat → UInt32
  answer : Nat → List UInt8 → Option Errno

namespace Job

/-- The datagram of a cut. -/
def bytes (job : Job) (cut : Cut) : List UInt8 :=
  job.headers cut.counter cut.first cut.last ++ cut.data

theorem bytes_length (job : Job) (cut : Cut) :
    (job.bytes cut).length = job.headerBytes + cut.data.length := by
  rw [bytes, List.length_append, job.headers_length]

structure State where
  rest : List UInt8
  counter : UInt32
  maxUdpPayload : Int
  first : Bool
  firstLoop : Bool
  attempts : Nat
  cuts : List Cut

def start (job : Job) : State where
  rest := job.data
  counter := job.offset
  maxUdpPayload := job.maxUdpPayload
  first := job.firstBuffer
  firstLoop := true
  attempts := 0
  cuts := []

/-- Data bytes of the next cut. -/
def State.count (state : State) : Nat :=
  bytesToWrite state.rest.length state.maxUdpPayload

/-- The next cut. -/
def next (job : Job) (state : State) : Cut where
  counter := state.counter
  first := state.first
  last := state.count == state.rest.length && job.lastBuffer
  data := state.rest.take state.count

/-- The next cut was refused for its size. -/
def State.retry (state : State) : State :=
  { state with
    maxUdpPayload := reducePayload state.maxUdpPayload
    firstLoop := false
    attempts := state.attempts + 1 }

/-- The next cut has gone out. -/
def send (job : Job) (state : State) : State :=
  { state with
    rest := state.rest.drop state.count
    counter := state.counter + job.advance state.count
    first := false
    firstLoop := false
    attempts := state.attempts + 1
    cuts := state.cuts ++ [job.next state] }

/-- How a job ends. -/
structure Outcome where
  ret : Int
  offset : UInt32
  cuts : List Cut

def round (job : Job) (state : State) : Round State Outcome :=
  if state.firstLoop ∨ 0 < state.rest.length then
    match job.answer state.attempts (job.bytes (job.next state)) with
    | none => .again (job.send state)
    | some errno =>
        if errno = .emsgsize ∧ state.first then .again state.retry
        else .leave ⟨-1, job.offset, state.cuts⟩
  else .leave ⟨0, state.counter, state.cuts⟩

/-- A sender's outcome is that of a job. -/
structure Reports (job : Job) (outcome : SendOutcome) (final : Outcome) : Prop where
  ret : outcome.ret = final.ret
  offset : outcome.offset = final.offset
  packetsSent : outcome.packetsSent = final.cuts.length
  sent : outcome.sent = final.cuts.map job.bytes

/-- The calls with outcomes in `run` do what the job does: they end as the job
ends, and in no other way. -/
structure Implements (job : Job) (run : SendOutcome → Prop) : Prop where
  completes : ∀ {final}, Returns job.round job.start final →
    ∃ outcome, run outcome ∧ job.Reports outcome final
  explains : ∀ {outcome}, run outcome →
    ∃ final, Returns job.round job.start final ∧ job.Reports outcome final

/-- A round that runs when the job's does, hands over the same datagram and
goes on to states and outcomes that correspond is in step with the job's. -/
theorem round_match {σ ρ : Type*} {job : Job} {abstract : State}
    {Follows : σ → State → Prop} {Reported : ρ → Outcome → Prop}
    {runs : Prop} [Decidable runs] {answer : Option Errno} {first : Bool}
    {advanced retried : σ} {failed done : ρ}
    (running : runs ↔ abstract.firstLoop = true ∨ 0 < abstract.rest.length)
    (answered : runs →
      answer = job.answer abstract.attempts (job.bytes (job.next abstract)))
    (marked : first = abstract.first)
    (advance : runs → Follows advanced (job.send abstract))
    (retry : job.answer abstract.attempts (job.bytes (job.next abstract)) ≠ none →
      Follows retried abstract.retry)
    (failure : Reported failed ⟨-1, job.offset, abstract.cuts⟩)
    (success : Reported done ⟨0, abstract.counter, abstract.cuts⟩) :
    Round.Match Follows Reported
      (if runs then
        match answer with
        | none => .again advanced
        | some errno =>
            if errno = .emsgsize ∧ first then .again retried else .leave failed
      else .leave done)
      (job.round abstract) := by
  subst marked
  unfold round
  by_cases going : runs
  · rw [if_pos going, if_pos (running.mp going), answered going]
    cases refused : job.answer abstract.attempts (job.bytes (job.next abstract)) with
    | none => exact .again (advance going)
    | some errno =>
        dsimp only
        split_ifs with again
        · exact .again (retry (by rw [refused]; simp))
        · exact .leave failure
  · rw [if_neg going, if_neg fun other => going (running.mpr other)]
    exact .leave success

/-- A loop in lockstep with a job implements it. -/
theorem implements_of_lockstep {σ ρ : Type*} {job : Job} {body : σ → Round σ ρ} {state : σ}
    (report : ρ → SendOutcome) (Follows : σ → State → Prop)
    (step : ∀ state abstract, Follows state abstract →
      Round.Match Follows (fun result final => job.Reports (report result) final)
        (body state) (job.round abstract))
    (start : Follows state job.start) :
    job.Implements fun outcome =>
      ∃ result, Returns body state result ∧ report result = outcome where
  completes := by
    intro final returns
    rcases Returns.simulate
      (fun abstract state => Follows state abstract)
      (fun final result => job.Reports (report result) final)
      (fun abstract state follows => (step state abstract follows).symm) start returns with
      ⟨result, ends, reports⟩
    exact ⟨report result, ⟨result, ends, rfl⟩, reports⟩
  explains := by
    intro outcome returned
    obtain ⟨result, returns, rfl⟩ := returned
    exact Returns.simulate Follows (fun result final => job.Reports (report result) final) step
      start returns

/-! ### Numbers and marks -/

/-- The number after some pieces. -/
def counterAfter (advance : Nat → UInt32) (counter : UInt32) (pieces : List (List UInt8)) :
    UInt32 :=
  pieces.foldl (fun current piece => current + advance piece.length) counter

/-- Consecutive pieces with their numbers; `first` marks the first of them and
`last` the last. -/
def cutsOf (advance : Nat → UInt32) :
    (first last : Bool) → UInt32 → List (List UInt8) → List Cut
  | _, _, _, [] => []
  | first, last, counter, [piece] => [⟨counter, first, last, piece⟩]
  | first, last, counter, piece :: next :: rest =>
      ⟨counter, first, false, piece⟩ ::
        cutsOf advance false last (counter + advance piece.length) (next :: rest)

theorem counterAfter_append (advance : Nat → UInt32) (counter : UInt32)
    (first second : List (List UInt8)) :
    counterAfter advance counter (first ++ second) =
      counterAfter advance (counterAfter advance counter first) second := by
  simp [counterAfter]

theorem cutsOf_length (advance : Nat → UInt32) (first last : Bool) (counter : UInt32)
    (pieces : List (List UInt8)) :
    (cutsOf advance first last counter pieces).length = pieces.length := by
  induction pieces generalizing first counter with
  | nil => rfl
  | cons piece rest inductionHypothesis =>
      cases rest with
      | nil => rfl
      | cons next others => simp [cutsOf, inductionHypothesis]

/-- Pieces that follow others are not marked as first, and those before them
not as last. -/
theorem cutsOf_append (advance : Nat → UInt32) (first last : Bool) (counter : UInt32)
    {before after : List (List UInt8)} (beforeSome : before ≠ []) (afterSome : after ≠ []) :
    cutsOf advance first last counter (before ++ after) =
      cutsOf advance first false counter before ++
        cutsOf advance false last (counterAfter advance counter before) after := by
  induction before generalizing first counter with
  | nil => exact absurd rfl beforeSome
  | cons piece rest inductionHypothesis =>
      cases rest with
      | nil =>
          rcases List.exists_cons_of_ne_nil afterSome with ⟨next, others, rfl⟩
          rfl
      | cons next others =>
          have tail := inductionHypothesis false (counter + advance piece.length) (by simp)
          simp only [List.cons_append, cutsOf] at tail ⊢
          rw [tail]
          rfl

/-! ### The invariant of every run -/

variable {job : Job}

/-- After some rounds: `pieces` went out and `rest` is what follows them. -/
structure Progress (job : Job) (pieces : List (List UInt8)) (state : State) : Prop where
  data : pieces.flatten ++ state.rest = job.data
  counter : state.counter = counterAfter job.advance job.offset pieces
  first : state.first = (job.firstBuffer && pieces.isEmpty)
  cuts : state.cuts = cutsOf job.advance job.firstBuffer
    (job.lastBuffer && state.rest.isEmpty) job.offset pieces

theorem progress_start (job : Job) : Progress job [] job.start where
  data := rfl
  counter := rfl
  first := by simp [start]
  cuts := rfl

theorem Progress.retry {pieces : List (List UInt8)} {state : State}
    (progress : Progress job pieces state) : Progress job pieces state.retry where
  data := progress.data
  counter := progress.counter
  first := progress.first
  cuts := progress.cuts

theorem count_le (state : State) : state.count ≤ state.rest.length :=
  bytesToWrite_le _ _

theorem Progress.send {pieces : List (List UInt8)} {state : State}
    (progress : Progress job pieces state) (more : pieces ≠ [] → state.rest ≠ []) :
    Progress job (pieces ++ [state.rest.take state.count]) (job.send state) where
  data := by
    have before := progress.data
    simpa [Job.send] using before
  counter := by
    have size : (state.rest.take state.count).length = state.count := by
      rw [List.length_take, min_eq_left (count_le state)]
    rw [counterAfter_append, ← progress.counter]
    simp [Job.send, counterAfter, size]
  first := by simp [Job.send]
  cuts := by
    have mark : (state.count == state.rest.length && job.lastBuffer) =
        (job.lastBuffer && (state.rest.drop state.count).isEmpty) := by
      have used : state.count = state.rest.length ↔ state.rest.drop state.count = [] := by
        rw [List.drop_eq_nil_iff]
        have le := count_le state
        omega
      rw [Bool.and_comm]
      congr 1
      rw [Bool.eq_iff_iff, beq_iff_eq, List.isEmpty_iff]
      exact used
    simp only [Job.send, Job.next]
    rw [mark]
    cases pieces with
    | nil =>
        rw [progress.cuts, progress.first, progress.counter]
        simp [cutsOf, counterAfter]
    | cons piece others =>
        have left : state.rest.isEmpty = false := by simpa using more (by simp)
        rw [cutsOf_append _ _ _ _ (by simp) (by simp), progress.cuts, left, progress.first,
          progress.counter]
        simp [cutsOf]

/-! ### What a round can do -/

theorem round_again {state after : State} (step : job.round state = .again after) :
    (state.firstLoop ∨ 0 < state.rest.length) ∧
      ((job.answer state.attempts (job.bytes (job.next state)) = none ∧
          after = job.send state) ∨
        (job.answer state.attempts (job.bytes (job.next state)) ≠ none ∧ state.first ∧
          after = state.retry)) := by
  unfold round at step
  split_ifs at step with running
  refine ⟨running, ?_⟩
  split at step
  · next accepted =>
      cases step
      exact .inl ⟨accepted, rfl⟩
  · next errno refused =>
      split_ifs at step with retried
      cases step
      exact .inr ⟨by simp [refused], retried.2, rfl⟩

theorem round_leave {state : State} {outcome : Outcome} (step : job.round state = .leave outcome) :
    (state.firstLoop = false ∧ state.rest = [] ∧ outcome = ⟨0, state.counter, state.cuts⟩) ∨
      (job.answer state.attempts (job.bytes (job.next state)) ≠ none ∧
        outcome = ⟨-1, job.offset, state.cuts⟩) := by
  unfold round at step
  split_ifs at step with running
  · split at step
    · cases step
    · next errno refused =>
        split_ifs at step
        cases step
        exact .inr ⟨by simp [refused], rfl⟩
  · cases step
    refine .inl ?_
    simpa using running

/-- A job whose socket refuses nothing succeeds. -/
theorem ret_of_accepting (accepts : ∀ attempts datagram, job.answer attempts datagram = none)
    {outcome : Outcome} (returns : Returns job.round job.start outcome) : outcome.ret = 0 := by
  refine returns.invariant (fun _ => True) (fun final => final.ret = 0) (fun _ _ _ _ => trivial) ?_
    trivial
  intro state final _ step
  rcases round_leave step with ⟨-, -, rfl⟩ | ⟨refused, -⟩
  · rfl
  · exact absurd (accepts _ _) refused

/-! ### Sockets that take small datagrams -/

/-- Every datagram with at most one byte of data is accepted. -/
def Tame (job : Job) : Prop :=
  ∀ attempts datagram, job.answer attempts datagram ≠ none →
    job.headerBytes + 1 < datagram.length

/-- What a job that sent everything leaves behind. -/
structure Sent (job : Job) (pieces : List (List UInt8)) (outcome : Outcome) : Prop where
  offset : outcome.offset = counterAfter job.advance job.offset pieces
  cuts : outcome.cuts = cutsOf job.advance job.firstBuffer job.lastBuffer job.offset pieces
  data : pieces.flatten = job.data
  hasPieces : pieces ≠ []
  sized : ∀ piece ∈ pieces, piece.length ≤ toSize job.maxUdpPayload ∧
    (job.data ≠ [] → piece ≠ [])

/-- The invariant of a job with a tame socket. -/
private structure Steady (job : Job) (state : State) : Prop where
  payload : 1 ≤ state.maxUdpPayload ∧ state.maxUdpPayload ≤ job.maxUdpPayload
  pieces : ∃ pieces, Progress job pieces state ∧
    (∀ piece ∈ pieces, piece.length ≤ toSize job.maxUdpPayload ∧ (job.data ≠ [] → piece ≠ [])) ∧
    (state.firstLoop = true → pieces = []) ∧
    (state.firstLoop = false → state.rest = [] → pieces ≠ [])

private def measure (state : State) : Nat :=
  state.rest.length + state.firstLoop.toNat + state.maxUdpPayload.toNat

variable (bounds : 1 ≤ job.maxUdpPayload ∧ job.maxUdpPayload ≤ 65500)

include bounds

private theorem toSize_payload {state : State} (steady : Steady job state) :
    toSize state.maxUdpPayload = state.maxUdpPayload.toNat := by
  have payload := steady.payload
  exact toSize_of_nonneg (by omega) (by omega)

private theorem steady_start : Steady job job.start where
  payload := ⟨bounds.1, le_rfl⟩
  pieces := ⟨[], progress_start job, by simp, fun _ => rfl, by simp [start]⟩

private theorem steady_send {state : State} (steady : Steady job state)
    (running : state.firstLoop ∨ 0 < state.rest.length) :
    Steady job (job.send state) ∧ measure (job.send state) < measure state := by
  have size := toSize_payload bounds steady
  have payload := steady.payload
  have whole : toSize job.maxUdpPayload = job.maxUdpPayload.toNat :=
    toSize_of_nonneg (by omega) (by omega)
  rcases steady.pieces with ⟨pieces, progress, sized, firstLoop, -⟩
  have limit : state.count ≤ toSize state.maxUdpPayload := bytesToWrite_le_toSize _ _
  have le := count_le state
  have positive : 0 < state.rest.length → 0 < state.count := fun left =>
    bytesToWrite_pos left (by omega)
  have taken : (state.rest.take state.count).length = state.count := by
    rw [List.length_take, min_eq_left le]
  have more : pieces ≠ [] → state.rest ≠ [] := by
    intro hasData
    rcases running with looping | left
    · exact absurd (firstLoop looping) hasData
    · exact List.length_pos_iff.mp left
  refine ⟨⟨payload, _, progress.send more, ?_, by simp [send], by simp⟩, ?_⟩
  · intro piece member
    rcases List.mem_append.mp member with before | last
    · exact sized piece before
    · rw [List.mem_singleton.mp last, taken]
      refine ⟨by omega, fun hasData empty => ?_⟩
      have left : 0 < state.rest.length := by
        rcases running with looping | left
        · have all := progress.data
          rw [firstLoop looping] at all
          exact List.length_pos_iff.mpr (by simpa [← all] using hasData)
        · exact left
      have noneTaken : state.count = 0 := by rw [← taken, empty, List.length_nil]
      have := positive left
      omega
  · simp only [measure, send, List.length_drop, Bool.toNat_false]
    rcases running with looping | left
    · rw [looping, Bool.toNat_true]
      omega
    · have := positive left
      omega

private theorem steady_retry (tame : job.Tame) {state : State} (steady : Steady job state)
    (refused : job.answer state.attempts (job.bytes (job.next state)) ≠ none) :
    Steady job state.retry ∧ measure state.retry < measure state := by
  have size := toSize_payload bounds steady
  have payload := steady.payload
  rcases steady.pieces with ⟨pieces, progress, sized, -, -⟩
  have long := tame _ _ refused
  rw [bytes_length, next, List.length_take, min_eq_left (count_le state)] at long
  have limit : state.count ≤ toSize state.maxUdpPayload := bytesToWrite_le_toSize _ _
  have le := count_le state
  have smaller := reducePayload_bounds payload.1
  have still : 1 ≤ reducePayload state.maxUdpPayload := by
    rw [reducePayload, Int.tdiv_eq_ediv_of_nonneg (by omega)]
    omega
  refine ⟨⟨⟨still, by simp only [State.retry]; omega⟩, pieces, progress.retry, sized,
    by simp [State.retry], ?_⟩, ?_⟩
  · intro _ isZero
    have empty : state.rest.length = 0 := by simpa [State.retry] using isZero
    omega
  · simp only [measure, State.retry, Bool.toNat_false]
    omega

private theorem steady_again (tame : job.Tame) {state after : State} (steady : Steady job state)
    (step : job.round state = .again after) :
    Steady job after ∧ measure after < measure state := by
  rcases round_again step with ⟨running, ⟨-, rfl⟩ | ⟨refused, -, rfl⟩⟩
  · exact steady_send bounds steady running
  · exact steady_retry bounds tame steady refused

/-- Every job with a tame socket comes to an end. -/
theorem exists_returns (tame : job.Tame) : ∃ outcome, Returns job.round job.start outcome :=
  Foundation.exists_returns (Steady job) measure
    (fun _ _ steady step => steady_again bounds tame steady step) (steady_start bounds)

/-- A job with a tame socket fails, or it has sent all its data. -/
theorem sent_of_returns (tame : job.Tame) {outcome : Outcome}
    (returns : Returns job.round job.start outcome) (success : outcome.ret = 0) :
    ∃ pieces, Sent job pieces outcome := by
  refine returns.invariant (Steady job)
    (fun final => final.ret = 0 → ∃ pieces, Sent job pieces final)
    (fun _ _ steady step => (steady_again bounds tame steady step).1) ?_ (steady_start bounds)
    success
  intro state final steady step ended
  rcases round_leave step with ⟨notFirst, done, rfl⟩ | ⟨-, rfl⟩
  · rcases steady.pieces with ⟨pieces, progress, sized, -, hasPieces⟩
    have cuts := progress.cuts
    have data := progress.data
    rw [done] at cuts data
    refine ⟨pieces, progress.counter, by simpa using cuts, by simpa using data,
      hasPieces notFirst done, sized⟩
  · simp at ended

end Job

end Dift.Packetize
