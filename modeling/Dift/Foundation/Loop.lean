import Mathlib.Tactic

/-!
Owns two execution models and their proof rules. `iterate` runs a loop body a
bounded number of times; `Returns` says that the loop leaves with a result
after finitely many rounds. `feed` runs a body that consumes one input token a
round and stops when it has a result or the input is used up. The rules are
the invariant rule, the measure rule for termination, and lockstep simulation
of one loop by another. `Reaches` relates the states of one run, and `Along`
says that every round of a run meets a condition on the state before it.
-/

namespace Dift.Foundation

/-- One round of a loop: go round again, or leave with a result. -/
inductive Round (σ ρ : Type*) where
  | again (state : σ)
  | leave (result : ρ)
deriving DecidableEq, Repr

/-! ### Loops without input -/

section Iterate

variable {σ ρ : Type*}

/-- Run the body for at most `fuel` rounds. -/
def iterate (body : σ → Round σ ρ) : Nat → σ → Option ρ
  | 0, _ => none
  | fuel + 1, state =>
      match body state with
      | .again next => iterate body fuel next
      | .leave result => some result

/-- The loop leaves with `result` after finitely many rounds. -/
def Returns (body : σ → Round σ ρ) (state : σ) (result : ρ) : Prop :=
  ∃ fuel, iterate body fuel state = some result

variable {body : σ → Round σ ρ}

theorem iterate_succ_of_again {state next : σ} (step : body state = .again next) (fuel : Nat) :
    iterate body (fuel + 1) state = iterate body fuel next := by
  simp [iterate, step]

theorem iterate_succ_of_leave {state : σ} {result : ρ} (step : body state = .leave result)
    (fuel : Nat) : iterate body (fuel + 1) state = some result := by
  simp [iterate, step]

/-- More fuel does not change a result. -/
theorem iterate_mono {state : σ} {result : ρ} {fuel more : Nat} (le : fuel ≤ more)
    (done : iterate body fuel state = some result) : iterate body more state = some result := by
  induction fuel generalizing state more with
  | zero => simp [iterate] at done
  | succ fuel inductionHypothesis =>
      obtain ⟨rest, rfl⟩ : ∃ rest, more = rest + 1 := ⟨more - 1, by omega⟩
      cases step : body state with
      | again next =>
          rw [iterate_succ_of_again step] at done ⊢
          exact inductionHypothesis (by omega) done
      | leave value =>
          rw [iterate_succ_of_leave step] at done ⊢
          exact done

theorem Returns.unique {state : σ} {first second : ρ} (one : Returns body state first)
    (two : Returns body state second) : first = second := by
  rcases one with ⟨fuelOne, doneOne⟩
  rcases two with ⟨fuelTwo, doneTwo⟩
  have left := iterate_mono (le_max_left fuelOne fuelTwo) doneOne
  have right := iterate_mono (le_max_right fuelOne fuelTwo) doneTwo
  exact Option.some.inj (left.symm.trans right)

theorem Returns.of_leave {state : σ} {result : ρ} (step : body state = .leave result) :
    Returns body state result :=
  ⟨1, iterate_succ_of_leave step 0⟩

theorem returns_iff_of_again {state next : σ} {result : ρ} (step : body state = .again next) :
    Returns body state result ↔ Returns body next result := by
  constructor
  · intro returned
    obtain ⟨fuel, done⟩ := returned
    cases fuel with
    | zero => simp [iterate] at done
    | succ fuel => exact ⟨fuel, by rwa [iterate_succ_of_again step] at done⟩
  · intro returned
    obtain ⟨fuel, done⟩ := returned
    exact ⟨fuel + 1, by rwa [iterate_succ_of_again step]⟩

/-- The invariant rule: what the body preserves and turns into a postcondition
holds of every result. -/
theorem Returns.invariant {state : σ} {result : ρ} (Inv : σ → Prop) (Post : ρ → Prop)
    (again : ∀ before after, Inv before → body before = .again after → Inv after)
    (leave : ∀ before value, Inv before → body before = .leave value → Post value)
    (start : Inv state) (returns : Returns body state result) : Post result := by
  rcases returns with ⟨fuel, done⟩
  induction fuel generalizing state with
  | zero => simp [iterate] at done
  | succ fuel inductionHypothesis =>
      cases step : body state with
      | again next =>
          rw [iterate_succ_of_again step] at done
          exact inductionHypothesis (again state next start step) done
      | leave value =>
          rw [iterate_succ_of_leave step, Option.some.injEq] at done
          exact done ▸ leave state value start step

/-- The measure rule: a loop whose invariant comes with a decreasing measure
leaves. -/
theorem exists_returns (Inv : σ → Prop) (measure : σ → Nat)
    (again : ∀ before after, Inv before → body before = .again after →
      Inv after ∧ measure after < measure before)
    {state : σ} (start : Inv state) : ∃ result, Returns body state result := by
  induction bound : measure state using Nat.strong_induction_on generalizing state with
  | _ size inductionHypothesis =>
      cases step : body state with
      | again next =>
          rcases again state next start step with ⟨kept, smaller⟩
          rcases inductionHypothesis _ (bound ▸ smaller) kept rfl with ⟨result, returns⟩
          exact ⟨result, (returns_iff_of_again step).mpr returns⟩
      | leave value => exact ⟨value, .of_leave step⟩

/-! ### Reachable states -/

/-- The loop gets from one state to another by going round. -/
def Reaches (body : σ → Round σ ρ) : σ → σ → Prop :=
  Relation.ReflTransGen fun before after => body before = .again after

/-- What the body preserves holds in every state the loop gets to. -/
theorem Reaches.invariant {state later : σ} (Inv : σ → Prop)
    (again : ∀ before after, Inv before → body before = .again after → Inv after)
    (start : Inv state) (reaches : Reaches body state later) : Inv later := by
  induction reaches with
  | refl => exact start
  | tail _ step inductionHypothesis => exact again _ _ inductionHypothesis step

end Iterate

/-! ### Lockstep simulation -/

section Simulation

variable {σ ρ τ π : Type*}

/-- Two rounds match when both go on in related states or both leave with
related results. -/
inductive Round.Match (Sim : σ → τ → Prop) (Out : ρ → π → Prop) :
    Round σ ρ → Round τ π → Prop where
  | again {left right} (sim : Sim left right) : Match Sim Out (.again left) (.again right)
  | leave {left right} (out : Out left right) : Match Sim Out (.leave left) (.leave right)

theorem Round.Match.symm {Sim : σ → τ → Prop} {Out : ρ → π → Prop} {left : Round σ ρ}
    {right : Round τ π} (matched : Round.Match Sim Out left right) :
    Round.Match (fun second first => Sim first second) (fun second first => Out first second)
      right left := by
  cases matched with
  | again sim => exact .again sim
  | leave out => exact .leave out

/-- Loops whose bodies match in related states run in lockstep: with the same
fuel both are still running or both have left with related results. -/
theorem iterate_lockstep {left : σ → Round σ ρ} {right : τ → Round τ π} (Sim : σ → τ → Prop)
    (Out : ρ → π → Prop)
    (step : ∀ first second, Sim first second → Round.Match Sim Out (left first) (right second))
    (fuel : Nat) {first : σ} {second : τ} (start : Sim first second) :
    Option.Rel Out (iterate left fuel first) (iterate right fuel second) := by
  induction fuel generalizing first second with
  | zero => exact .none
  | succ fuel inductionHypothesis =>
      have matched := step first second start
      simp only [iterate]
      cases firstStep : left first <;> cases secondStep : right second <;>
        rw [firstStep, secondStep] at matched <;> cases matched
      · exact inductionHypothesis ‹_›
      · exact .some ‹_›

theorem Returns.simulate {left : σ → Round σ ρ} {right : τ → Round τ π} (Sim : σ → τ → Prop)
    (Out : ρ → π → Prop)
    (step : ∀ first second, Sim first second → Round.Match Sim Out (left first) (right second))
    {first : σ} {second : τ} (start : Sim first second) {result : ρ}
    (returns : Returns left first result) :
    ∃ other, Returns right second other ∧ Out result other := by
  rcases returns with ⟨fuel, done⟩
  have related := iterate_lockstep Sim Out step fuel start
  rw [done] at related
  cases other : iterate right fuel second with
  | none => rw [other] at related; cases related
  | some value =>
      rw [other] at related
      cases related with
      | some out => exact ⟨value, ⟨fuel, other⟩, out⟩

end Simulation

/-! ### Loops that read input -/

section Feed

variable {σ ρ ι : Type*}

/-- What a reading loop has come to: it waits for input in some state, or it
has left with a result and did not touch the rest of the input. -/
inductive Fed (σ ρ ι : Type*) where
  | waiting (state : σ)
  | left (result : ρ) (rest : List ι)
deriving DecidableEq, Repr

/-- Run a body that reads one token a round. -/
def feed (body : σ → ι → Round σ ρ) : σ → List ι → Fed σ ρ ι
  | state, [] => .waiting state
  | state, token :: rest =>
      match body state token with
      | .again next => feed body next rest
      | .leave result => .left result rest

variable {body : σ → ι → Round σ ρ}

@[simp] theorem feed_nil (state : σ) : feed body state [] = .waiting state := rfl

theorem feed_cons_of_again {state next : σ} {token : ι} (step : body state token = .again next)
    (rest : List ι) : feed body state (token :: rest) = feed body next rest := by
  simp [feed, step]

theorem feed_cons_of_leave {state : σ} {token : ι} {result : ρ}
    (step : body state token = .leave result) (rest : List ι) :
    feed body state (token :: rest) = .left result rest := by
  simp [feed, step]

/-- A loop still waiting after some input goes on with what follows. -/
theorem feed_append_of_waiting {state next : σ} {first : List ι}
    (waiting : feed body state first = .waiting next) (second : List ι) :
    feed body state (first ++ second) = feed body next second := by
  induction first generalizing state with
  | nil =>
      cases waiting
      rfl
  | cons token rest inductionHypothesis =>
      cases step : body state token with
      | again after =>
          rw [feed_cons_of_again step] at waiting
          rw [List.cons_append, feed_cons_of_again step]
          exact inductionHypothesis waiting
      | leave result =>
          rw [feed_cons_of_leave step] at waiting
          cases waiting

/-- The result of a loop that has left does not depend on later input. -/
theorem feed_append_of_left {state : σ} {result : ρ} {first rest : List ι}
    (left : feed body state first = .left result rest) (second : List ι) :
    feed body state (first ++ second) = .left result (rest ++ second) := by
  induction first generalizing state with
  | nil => cases left
  | cons token tail inductionHypothesis =>
      cases step : body state token with
      | again after =>
          rw [feed_cons_of_again step] at left
          rw [List.cons_append, feed_cons_of_again step]
          exact inductionHypothesis left
      | leave value =>
          rw [feed_cons_of_leave step] at left
          cases left
          rw [List.cons_append, feed_cons_of_leave step]

/-- A loop that has left has read something. -/
theorem feed_left_length {state : σ} {result : ρ} {input rest : List ι}
    (left : feed body state input = .left result rest) : rest.length < input.length := by
  induction input generalizing state with
  | nil => cases left
  | cons token tail inductionHypothesis =>
      rw [List.length_cons]
      cases step : body state token with
      | again after =>
          rw [feed_cons_of_again step] at left
          exact Nat.lt_succ_of_lt (inductionHypothesis left)
      | leave value =>
          rw [feed_cons_of_leave step] at left
          cases left
          exact Nat.lt_succ_self _

/-- A loop that leaves a whole tail unread has left before it. -/
theorem feed_left_of_append {state : σ} {result : ρ} {input rest : List ι}
    (left : feed body state (input ++ rest) = .left result rest) :
    feed body state input = .left result [] := by
  cases first : feed body state input with
  | waiting next =>
      rw [feed_append_of_waiting first] at left
      exact absurd (feed_left_length left) (lt_irrefl _)
  | left value unread =>
      rw [feed_append_of_left first] at left
      injection left with sameResult sameRest
      rw [sameResult, List.append_left_eq_self.mp sameRest]

/-- The invariant rule for reading loops. The invariant may speak about the
input read so far. -/
theorem feed_invariant (Inv : List ι → σ → Prop) (Post : List ι → ρ → Prop)
    {input : List ι}
    (again : ∀ seen token rest before after, input = seen ++ token :: rest → Inv seen before →
      body before token = .again after → Inv (seen ++ [token]) after)
    (leave : ∀ seen token rest before value, input = seen ++ token :: rest → Inv seen before →
      body before token = .leave value → Post (seen ++ [token]) value)
    {state : σ} (start : Inv [] state) :
    (∃ final, feed body state input = .waiting final ∧ Inv input final) ∨
      ∃ result seen rest, feed body state input = .left result rest ∧ input = seen ++ rest ∧
        Post seen result := by
  suffices generalized : ∀ (remaining seen : List ι) (current : σ), input = seen ++ remaining →
      Inv seen current →
      (∃ final, feed body current remaining = .waiting final ∧ Inv input final) ∨
        ∃ result read rest, feed body current remaining = .left result rest ∧
          input = read ++ rest ∧ Post read result from generalized input [] state rfl start
  intro remaining
  induction remaining with
  | nil =>
      intro seen current split holds
      rw [List.append_nil] at split
      exact .inl ⟨current, rfl, split ▸ holds⟩
  | cons token rest inductionHypothesis =>
      intro seen current split holds
      cases step : body current token with
      | again next =>
          rw [feed_cons_of_again step]
          exact inductionHypothesis (seen ++ [token]) next (by simp [split])
            (again seen token rest current next split holds step)
      | leave value =>
          rw [feed_cons_of_leave step]
          exact .inr ⟨value, seen ++ [token], rest, rfl, by simp [split],
            leave seen token rest current value split holds step⟩

/-- The invariant rule for a reading loop that has left. -/
theorem feed_left_post (Inv : List ι → σ → Prop) (Post : List ι → ρ → Prop)
    (again : ∀ seen token before after, Inv seen before →
      body before token = .again after → Inv (seen ++ [token]) after)
    (leave : ∀ seen token before value, Inv seen before →
      body before token = .leave value → Post (seen ++ [token]) value)
    {state : σ} (start : Inv [] state) {input rest : List ι} {result : ρ}
    (left : feed body state input = .left result rest) :
    ∃ seen, input = seen ++ rest ∧ Post seen result := by
  rcases feed_invariant Inv Post (fun seen token _ before after _ => again seen token before after)
    (fun seen token _ before value _ => leave seen token before value) start with
    ⟨final, waiting, -⟩ | ⟨value, seen, unread, finished, split, post⟩
  · rw [left] at waiting
    cases waiting
  · rw [left] at finished
    cases finished
    exact ⟨seen, split, post⟩

/-! ### What every round of a run meets -/

/-- Every round of a run meets a condition on the state before it and the token
it reads. -/
def Along (body : σ → ι → Round σ ρ) (Meets : σ → ι → Prop) : σ → List ι → Prop
  | _, [] => True
  | state, token :: rest => Meets state token ∧
      match body state token with
      | .again next => Along body Meets next rest
      | .leave _ => True

instance decidableAlong (body : σ → ι → Round σ ρ) (Meets : σ → ι → Prop)
    [∀ state token, Decidable (Meets state token)] (state : σ) (input : List ι) :
    Decidable (Along body Meets state input) :=
  match input with
  | [] => .isTrue trivial
  | token :: rest =>
      match step : body state token with
      | .again next =>
          have := decidableAlong body Meets next rest
          decidable_of_iff (Meets state token ∧ Along body Meets next rest) (by simp [Along, step])
      | .leave _ => decidable_of_iff (Meets state token) (by simp [Along, step])

variable {Meets : σ → ι → Prop}

/-- The first round of a run meets the condition. -/
theorem Along.head {state : σ} {token : ι} {rest : List ι}
    (along : Along body Meets state (token :: rest)) : Meets state token :=
  along.1

theorem along_cons_of_again {state next : σ} {token : ι} (step : body state token = .again next)
    (rest : List ι) : Along body Meets state (token :: rest) ↔
      Meets state token ∧ Along body Meets next rest := by
  simp [Along, step]

theorem along_cons_of_leave {state : σ} {token : ι} {result : ρ}
    (step : body state token = .leave result) (rest : List ι) :
    Along body Meets state (token :: rest) ↔ Meets state token := by
  simp [Along, step]

/-- A run goes on from where it waits. -/
theorem along_append_of_waiting {state final : σ} {first : List ι}
    (waiting : feed body state first = .waiting final) (second : List ι) :
    Along body Meets state (first ++ second) ↔
      Along body Meets state first ∧ Along body Meets final second := by
  induction first generalizing state with
  | nil =>
      cases waiting
      exact (and_iff_right trivial).symm
  | cons token tail inductionHypothesis =>
      cases step : body state token with
      | again after =>
          rw [feed_cons_of_again step] at waiting
          rw [List.cons_append, along_cons_of_again step, along_cons_of_again step,
            inductionHypothesis waiting, and_assoc]
      | leave value =>
          rw [feed_cons_of_leave step] at waiting
          cases waiting

/-- A run that has left reads no further. -/
theorem along_append_of_left {state : σ} {result : ρ} {first rest : List ι}
    (left : feed body state first = .left result rest) (second : List ι) :
    Along body Meets state (first ++ second) ↔ Along body Meets state first := by
  induction first generalizing state with
  | nil => cases left
  | cons token tail inductionHypothesis =>
      cases step : body state token with
      | again after =>
          rw [feed_cons_of_again step] at left
          rw [List.cons_append, along_cons_of_again step, along_cons_of_again step,
            inductionHypothesis left]
      | leave value =>
          rw [List.cons_append, along_cons_of_leave step, along_cons_of_leave step]

theorem along_of_forall (meets : ∀ state token, Meets state token) {state : σ} {input : List ι} :
    Along body Meets state input := by
  induction input generalizing state with
  | nil => trivial
  | cons token rest inductionHypothesis =>
      cases step : body state token with
      | again next =>
          exact (along_cons_of_again step rest).mpr ⟨meets state token, inductionHypothesis⟩
      | leave result => exact (along_cons_of_leave step rest).mpr (meets state token)

/-- Conditions that agree on every round agree on every run. -/
theorem along_congr {Fulfils : σ → ι → Prop}
    (same : ∀ state token, Meets state token ↔ Fulfils state token) (state : σ) (input : List ι) :
    Along body Meets state input ↔ Along body Fulfils state input := by
  induction input generalizing state with
  | nil => exact Iff.rfl
  | cons token rest inductionHypothesis =>
      cases step : body state token with
      | again next =>
          rw [along_cons_of_again step, along_cons_of_again step, same, inductionHypothesis]
      | leave result => rw [along_cons_of_leave step, along_cons_of_leave step, same]

/-- Conditions that agree where an invariant holds, which the rounds that meet
one of them keep, agree on every run. The invariant may speak about the tokens
read so far, of which the body sees an encoding. -/
theorem along_congr_of_history {κ : Type*} (encode : κ → ι) {Fulfils : σ → ι → Prop}
    (Inv : List κ → σ → Prop) {input : List κ}
    (same : ∀ seen token rest state, input = seen ++ token :: rest → Inv seen state →
      (Meets state (encode token) ↔ Fulfils state (encode token)))
    (keeps : ∀ seen token rest state next, input = seen ++ token :: rest → Inv seen state →
      Meets state (encode token) → body state (encode token) = .again next →
      Inv (seen ++ [token]) next)
    {state : σ} (start : Inv [] state) :
    Along body Meets state (input.map encode) ↔ Along body Fulfils state (input.map encode) := by
  suffices generalized : ∀ (remaining seen : List κ) (current : σ), input = seen ++ remaining →
      Inv seen current → (Along body Meets current (remaining.map encode) ↔
        Along body Fulfils current (remaining.map encode)) from
    generalized input [] state rfl start
  intro remaining
  induction remaining with
  | nil =>
      intro seen current _ _
      exact Iff.rfl
  | cons token rest inductionHypothesis =>
      intro seen current split holds
      have here := same seen token rest current split holds
      rw [List.map_cons]
      cases step : body current (encode token) with
      | again next =>
          rw [along_cons_of_again step, along_cons_of_again step, ← here]
          apply and_congr_right
          intro meets
          exact inductionHypothesis (seen ++ [token]) next (by simp [split])
            (keeps seen token rest current next split holds meets step)
      | leave result => rw [along_cons_of_leave step, along_cons_of_leave step, here]

/-- The same for an invariant of the state alone. -/
theorem along_congr_of_invariant {Fulfils : σ → ι → Prop} (Inv : σ → Prop)
    (same : ∀ state token, Inv state → (Meets state token ↔ Fulfils state token))
    (keeps : ∀ state token next, Inv state → Meets state token → body state token = .again next →
      Inv next)
    {state : σ} (start : Inv state) (input : List ι) :
    Along body Meets state input ↔ Along body Fulfils state input := by
  have history := @along_congr_of_history σ ρ ι body Meets ι id Fulfils (fun _ => Inv) input
    (fun _ token _ state _ holds => same state token holds)
    (fun _ token _ state next _ holds => keeps state token next holds) state start
  rwa [List.map_id] at history

/-- A run ends well exactly when every round of it meets the condition that
tells whether the round may end badly. -/
theorem along_iff_left (Good : ρ → Prop) {input : List ι}
    (decides : ∀ token ∈ input, ∀ state, Meets state token ↔
      ∀ result, body state token = .leave result → Good result) (state : σ) :
    Along body Meets state input ↔
      ∀ result rest, feed body state input = .left result rest → Good result := by
  induction input generalizing state with
  | nil =>
      constructor
      · intro _ result rest left
        cases left
      · intro _
        trivial
  | cons token rest inductionHypothesis =>
      have here := decides token (by simp) state
      have later := inductionHypothesis fun other member => decides other (by simp [member])
      cases step : body state token with
      | again next =>
          rw [along_cons_of_again step, later next, feed_cons_of_again step, here]
          simp [step]
      | leave result =>
          rw [along_cons_of_leave step, feed_cons_of_leave step, here]
          constructor
          · intro good other unread same
            cases same
            exact good result step
          · intro good other same
            rw [step] at same
            cases same
            exact good result rest rfl

/-- A run does not end with a bad result exactly when every round of it meets
the condition that rules the result out. -/
theorem along_iff_ne_left (bad : ρ) {input : List ι}
    (decides : ∀ token ∈ input, ∀ state, Meets state token ↔ body state token ≠ .leave bad)
    (state : σ) :
    Along body Meets state input ↔ ∀ rest, feed body state input ≠ .left bad rest := by
  rw [along_iff_left (· ≠ bad)]
  · constructor
    · intro never rest left
      exact never bad rest left rfl
    · intro never result rest left same
      exact never rest (same ▸ left)
  · intro token member before
    rw [decides token member before]
    constructor
    · intro never result left same
      exact never (same ▸ left)
    · intro never left
      exact never bad left rfl

end Feed

section FeedSimulation

variable {σ ρ ι τ π κ : Type*}

/-- Two reading loops match when both wait in related states, or both have
left with related results and the same number of tokens unread. -/
inductive Fed.Match (encode : κ → ι) (Sim : σ → τ → Prop) (Out : ρ → π → Prop) :
    Fed σ ρ ι → Fed τ π κ → Prop where
  | waiting {left right} (sim : Sim left right) :
      Match encode Sim Out (.waiting left) (.waiting right)
  | left {first second} (out : Out first second) (rest : List κ) :
      Match encode Sim Out (.left first (rest.map encode)) (.left second rest)

/-- Reading loops whose bodies match on every token run in lockstep, as long as
their rounds meet the conditions that the match needs. -/
theorem feed_lockstep_along {left : σ → ι → Round σ ρ} {right : τ → κ → Round τ π}
    (encode : κ → ι) (Sim : σ → τ → Prop) (Out : ρ → π → Prop) {Meets : σ → ι → Prop}
    {Fulfils : τ → κ → Prop} {tokens : List κ}
    (step : ∀ token ∈ tokens, ∀ first second, Sim first second → Meets first (encode token) →
      Fulfils second token → Round.Match Sim Out (left first (encode token)) (right second token))
    {first : σ} {second : τ} (start : Sim first second)
    (meets : Along left Meets first (tokens.map encode))
    (fulfils : Along right Fulfils second tokens) :
    Fed.Match encode Sim Out (feed left first (tokens.map encode)) (feed right second tokens) := by
  induction tokens generalizing first second with
  | nil => exact .waiting start
  | cons token rest inductionHypothesis =>
      rcases meets with ⟨meetsHere, meetsLater⟩
      rcases fulfils with ⟨fulfilsHere, fulfilsLater⟩
      have matched := step token (by simp) first second start meetsHere fulfilsHere
      simp only [List.map_cons, feed]
      cases firstStep : left first (encode token) <;> cases secondStep : right second token <;>
        rw [firstStep, secondStep] at matched <;> cases matched
      · rw [firstStep] at meetsLater
        rw [secondStep] at fulfilsLater
        exact inductionHypothesis (fun other member => step other (by simp [member])) ‹_›
          meetsLater fulfilsLater
      · exact .left ‹_› rest

/-- Reading loops whose bodies match on every token run in lockstep. -/
theorem feed_lockstep {left : σ → ι → Round σ ρ} {right : τ → κ → Round τ π} (encode : κ → ι)
    (Sim : σ → τ → Prop) (Out : ρ → π → Prop) {tokens : List κ}
    (step : ∀ token ∈ tokens, ∀ first second, Sim first second →
      Round.Match Sim Out (left first (encode token)) (right second token))
    {first : σ} {second : τ} (start : Sim first second) :
    Fed.Match encode Sim Out (feed left first (tokens.map encode)) (feed right second tokens) :=
  feed_lockstep_along encode Sim Out
    (fun token member first second sim _ _ => step token member first second sim) start
    (along_of_forall fun _ _ => trivial) (along_of_forall fun _ _ => trivial)

end FeedSimulation

end Dift.Foundation
