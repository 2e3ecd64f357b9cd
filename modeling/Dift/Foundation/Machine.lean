import Mathlib.Tactic

/-!
Owns machines: a partial step function on states and actions, and its runs over
a list of actions. When the actions name the party that moves, the runs are all
interleavings. The rules are the invariant rule, simulation of one machine by
another, through a relation or a view, the bound on the length of a run by a measure
that every step lowers, how the weights of many parties add up to such a measure,
and the rule that turns what must hold in every state into what must hold of every
step.
-/

namespace Dift.Foundation.Machine

variable {σ τ α β : Type*}

/-- A run: every action is possible where it stands. -/
def run (step : σ → α → Option σ) (state : σ) (actions : List α) : Option σ :=
  actions.foldlM step state

section Rules

variable {step : σ → α → Option σ}

@[simp] theorem run_nil (state : σ) : run step state [] = some state := rfl

theorem run_cons_eq_some_iff {before after : σ} {action : α} {rest : List α} :
    run step before (action :: rest) = some after ↔
      ∃ middle, step before action = some middle ∧ run step middle rest = some after := by
  rw [run, List.foldlM_cons]
  exact Option.bind_eq_some_iff

theorem run_append_eq_some_iff {before after : σ} {first second : List α} :
    run step before (first ++ second) = some after ↔
      ∃ middle, run step before first = some middle ∧ run step middle second = some after := by
  rw [run, List.foldlM_append]
  exact Option.bind_eq_some_iff

/-- One step is a run. -/
theorem run_singleton (before : σ) (action : α) :
    run step before [action] = step before action := by
  rw [run, List.foldlM_cons]
  exact bind_pure _

/-- What every step keeps, every run keeps. -/
theorem run_invariant (invariant : σ → Prop)
    (kept : ∀ {before after action}, invariant before → step before action = some after →
      invariant after) {before after : σ} {actions : List α} (holds : invariant before)
    (ran : run step before actions = some after) : invariant after := by
  induction actions generalizing before with
  | nil =>
      cases ran
      exact holds
  | cons action rest inductionHypothesis =>
      rcases run_cons_eq_some_iff.mp ran with ⟨middle, stepped, ran⟩
      exact inductionHypothesis (kept holds stepped) ran

/-- When every allowed step lowers a measure, a run of such steps is no longer
than the measure. -/
theorem run_length_le (invariant : σ → Prop) (measure : σ → Nat) {allowed : α → Prop}
    (kept : ∀ {before after action}, invariant before → allowed action →
      step before action = some after → invariant after)
    (lowers : ∀ {before after action}, invariant before → allowed action →
      step before action = some after → measure after < measure before)
    {before after : σ} {actions : List α} (holds : invariant before)
    (all : ∀ action ∈ actions, allowed action) (ran : run step before actions = some after) :
    actions.length + measure after ≤ measure before := by
  induction actions generalizing before with
  | nil =>
      cases ran
      exact (Nat.zero_add _).le
  | cons action rest inductionHypothesis =>
      rcases run_cons_eq_some_iff.mp ran with ⟨middle, stepped, ran⟩
      have lower := lowers holds (all action List.mem_cons_self) stepped
      have later := inductionHypothesis (kept holds (all action List.mem_cons_self) stepped)
        (fun next member => all next (List.mem_cons_of_mem _ member)) ran
      rw [List.length_cons]
      omega

/-- What holds of every state of a run. -/
def Throughout (step : σ → α → Option σ) (property : σ → Prop) (state : σ) : List α → Prop
  | [] => property state
  | action :: rest => property state ∧
      ∀ next, step state action = some next → Throughout step property next rest

/-- What holds of every step of a run. -/
def EveryStep (step : σ → α → Option σ) (condition : σ → α → Prop) (state : σ) : List α → Prop
  | [] => True
  | action :: rest => condition state action ∧
      ∀ next, step state action = some next → EveryStep step condition next rest

instance decidableEveryStep {condition : σ → α → Prop}
    [∀ state action, Decidable (condition state action)] :
    ∀ state actions, Decidable (EveryStep step condition state actions)
  | _, [] => .isTrue trivial
  | state, action :: rest =>
      match isNext : step state action with
      | none =>
          decidable_of_iff (condition state action)
            ⟨fun meets => ⟨meets, fun _ stepped => nomatch isNext.symm.trans stepped⟩,
              fun every => every.1⟩
      | some next =>
          have : Decidable (EveryStep step condition next rest) := decidableEveryStep next rest
          decidable_of_iff (condition state action ∧ EveryStep step condition next rest)
            ⟨fun every => ⟨every.1, fun _ stepped =>
                Option.some.inj (isNext.symm.trans stepped) ▸ every.2⟩,
              fun every => ⟨every.1, every.2 next isNext⟩⟩

theorem Throughout.head {property : σ → Prop} {state : σ} {actions : List α}
    (throughout : Throughout step property state actions) : property state := by
  cases actions with
  | nil => exact throughout
  | cons action rest => exact throughout.1

theorem everyStep_of_all {condition : σ → α → Prop} {allowed : α → Prop} {actions : List α}
    (all : ∀ action ∈ actions, allowed action)
    (always : ∀ {action}, allowed action → ∀ state, condition state action) (state : σ) :
    EveryStep step condition state actions := by
  induction actions generalizing state with
  | nil => trivial
  | cons action rest inductionHypothesis =>
      exact ⟨always (all action List.mem_cons_self) state, fun next _ =>
        inductionHypothesis (fun later member => all later (List.mem_cons_of_mem _ member)) next⟩

/-- A property that must hold in every state comes down to a condition on every
step, when an invariant makes the property true, and a step keeps the invariant
exactly when it meets the condition. -/
theorem throughout_iff_everyStep (invariant : σ → Prop) {property : σ → Prop}
    {condition granted : σ → α → Prop}
    (holds : ∀ {state}, invariant state → property state)
    (kept : ∀ {before after action}, invariant before → granted before action →
      condition before action → step before action = some after → invariant after)
    (broken : ∀ {before after action}, invariant before → granted before action →
      ¬ condition before action → step before action = some after → ¬ property after)
    {state : σ} {actions : List α} (start : invariant state)
    (possible : (run step state actions).isSome) (all : EveryStep step granted state actions) :
    Throughout step property state actions ↔ EveryStep step condition state actions := by
  induction actions generalizing state with
  | nil => exact iff_of_true (holds start) trivial
  | cons action rest inductionHypothesis =>
      rcases Option.isSome_iff_exists.mp possible with ⟨last, ran⟩
      rcases run_cons_eq_some_iff.mp ran with ⟨middle, stepped, ran⟩
      have one : ∀ next, step state action = some next → next = middle := by
        intro next isNext
        rw [stepped] at isNext
        exact (Option.some_inj.mp isNext).symm
      by_cases meets : condition state action
      · have further := inductionHypothesis (kept start all.1 meets stepped)
          (by rw [ran]; rfl) (all.2 middle stepped)
        constructor
        · intro throughout
          refine ⟨meets, fun next isNext => ?_⟩
          rw [one next isNext]
          exact further.mp (throughout.2 middle stepped)
        · intro every
          refine ⟨holds start, fun next isNext => ?_⟩
          rw [one next isNext]
          exact further.mpr (every.2 middle stepped)
      · apply iff_of_false
        · intro throughout
          exact broken start all.1 meets stepped (throughout.2 middle stepped).head
        · exact fun every => meets every.1

end Rules

/-! ### The weights of many parties -/

/-- The weights of the first parties together. -/
def totalWeight (count : Nat) (weight : τ → Nat) (parties : Nat → τ) : Nat :=
  ∑ id ∈ Finset.range count, weight (parties id)

theorem totalWeight_update {count id : Nat} (known : id < count) (weight : τ → Nat)
    (parties : Nat → τ) (moved : τ) :
    totalWeight count weight (Function.update parties id moved) + weight (parties id) =
      totalWeight count weight parties + weight moved := by
  have member := Finset.mem_range.mpr known
  have others : ∑ other ∈ (Finset.range count).erase id,
      weight (Function.update parties id moved other) =
        ∑ other ∈ (Finset.range count).erase id, weight (parties other) := by
    apply Finset.sum_congr rfl
    intro other isOther
    rw [Function.update_of_ne (Finset.ne_of_mem_erase isOther)]
  rw [totalWeight, totalWeight, ← Finset.add_sum_erase _ _ member, others, Function.update_self,
    ← Finset.add_sum_erase _ (fun other => weight (parties other)) member]
  omega

theorem totalWeight_le_add {weight heavier : τ → Nat} {more : Nat}
    (each : ∀ party, heavier party ≤ weight party + more) (count : Nat) (parties : Nat → τ) :
    totalWeight count heavier parties ≤ totalWeight count weight parties + more * count := by
  calc
    totalWeight count heavier parties
        ≤ ∑ id ∈ Finset.range count, (weight (parties id) + more) :=
      Finset.sum_le_sum fun id _ => each (parties id)
    _ = totalWeight count weight parties + more * count := by
      rw [Finset.sum_add_distrib, Finset.sum_const, Finset.card_range, smul_eq_mul, totalWeight]
      ring

/-! ### Simulation -/

/-- Every step of the lower machine is matched by a run of the upper one, which
may be empty. -/
def Simulates (lower : σ → α → Option σ) (upper : τ → β → Option τ)
    (related : σ → τ → Prop) : Prop :=
  ∀ {before after action above}, related before above → lower before action = some after →
    ∃ actions above', run upper above actions = some above' ∧ related after above'

/-- Every run of the lower machine is matched by a run of the upper one. -/
theorem Simulates.run {lower : σ → α → Option σ} {upper : τ → β → Option τ}
    {related : σ → τ → Prop} (simulates : Simulates lower upper related) {before after : σ}
    {actions : List α} {above : τ} (start : related before above)
    (ran : Machine.run lower before actions = some after) :
    ∃ matching above', Machine.run upper above matching = some above' ∧ related after above' := by
  induction actions generalizing before above with
  | nil =>
      cases ran
      exact ⟨[], above, rfl, start⟩
  | cons action rest inductionHypothesis =>
      rcases run_cons_eq_some_iff.mp ran with ⟨middle, stepped, ran⟩
      rcases simulates start stepped with ⟨first, between, ranFirst, related⟩
      rcases inductionHypothesis related ran with ⟨second, above', ranSecond, done⟩
      exact ⟨first ++ second, above',
        run_append_eq_some_iff.mpr ⟨between, ranFirst, ranSecond⟩, done⟩

/-- Where every step meets a condition, a run is a run of another machine, when each such
step is one of its steps, seen through a view of the states. -/
theorem run_view {lower : σ → α → Option σ} {upper : τ → β → Option τ}
    {granted : σ → α → Prop} (invariant : σ → Prop) (view : σ → τ) (name : α → β)
    (each : ∀ {before after action}, invariant before → granted before action →
      lower before action = some after →
        upper (view before) (name action) = some (view after) ∧ invariant after)
    {before after : σ} {actions : List α} (holds : invariant before)
    (all : EveryStep lower granted before actions) (ran : run lower before actions = some after) :
    run upper (view before) (actions.map name) = some (view after) ∧ invariant after := by
  induction actions generalizing before with
  | nil =>
      cases ran
      exact ⟨rfl, holds⟩
  | cons action rest inductionHypothesis =>
      rcases run_cons_eq_some_iff.mp ran with ⟨middle, stepped, ran⟩
      obtain ⟨above, kept⟩ := each holds all.1 stepped
      obtain ⟨further, last⟩ := inductionHypothesis kept (all.2 middle stepped) ran
      exact ⟨run_cons_eq_some_iff.mpr ⟨view middle, above, further⟩, last⟩

end Dift.Foundation.Machine
