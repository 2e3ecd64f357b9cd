import Mathlib.Tactic

/-!
Owns a capacity that is doubled at most once for each request. The requests are
met exactly when none of them asks for more than twice the capacity of its
moment; what is reached then is the smallest doubling that holds all of them,
in whatever order they came.
-/

namespace Dift.Foundation.Doubling

/-- One request. -/
def grow (capacity need : Nat) : Nat :=
  if capacity < need then 2 * capacity else capacity

/-- Every request is met by one doubling at most. -/
def Suffices : Nat → List Nat → Prop
  | _, [] => True
  | capacity, need :: rest => need ≤ 2 * capacity ∧ Suffices (grow capacity need) rest

instance decidableSuffices : (capacity : Nat) → (needs : List Nat) →
    Decidable (Suffices capacity needs)
  | _, [] => inferInstanceAs (Decidable True)
  | capacity, need :: rest =>
      have := decidableSuffices (grow capacity need) rest
      inferInstanceAs (Decidable (need ≤ 2 * capacity ∧ Suffices (grow capacity need) rest))

theorem le_grow (capacity need : Nat) : capacity ≤ grow capacity need := by
  unfold grow
  split_ifs <;> omega

theorem need_le_grow {capacity need : Nat} (met : need ≤ 2 * capacity) :
    need ≤ grow capacity need := by
  unfold grow
  split_ifs <;> omega

/-- What a run of requests reaches. -/
def reached (capacity : Nat) (needs : List Nat) : Nat :=
  needs.foldl grow capacity

@[simp] theorem reached_nil (capacity : Nat) : reached capacity [] = capacity := rfl

@[simp] theorem reached_cons (capacity need : Nat) (rest : List Nat) :
    reached capacity (need :: rest) = reached (grow capacity need) rest := rfl

/-- Requests that rise by no more than the first capacity at a time are met. -/
theorem suffices_of_steps {capacity step last : Nat} {needs : List Nat} (held : last ≤ capacity)
    (stepHeld : step ≤ capacity)
    (steps : List.IsChain (fun before after => after ≤ before + step) (last :: needs)) :
    Suffices capacity needs := by
  induction needs generalizing capacity last with
  | nil => trivial
  | cons need rest inductionHypothesis =>
      rcases List.isChain_cons_cons.mp steps with ⟨rise, later⟩
      have met : need ≤ 2 * capacity := by omega
      have grown := le_grow capacity need
      exact ⟨met, inductionHypothesis (need_le_grow met) (stepHeld.trans grown) later⟩

/-- The capacity is the smallest doubling of the first one that holds some
requests. -/
structure Least (first : Nat) (needs : List Nat) (capacity : Nat) : Prop where
  doubled : ∃ times, capacity = 2 ^ times * first
  holds : ∀ need ∈ needs, need ≤ capacity
  least : capacity = first ∨ ∃ need ∈ needs, capacity < 2 * need

theorem Least.grow {first capacity need : Nat} {needs : List Nat}
    (least : Least first needs capacity) (met : need ≤ 2 * capacity) :
    Least first (needs ++ [need]) (grow capacity need) where
  doubled := by
    rcases least.doubled with ⟨times, same⟩
    unfold Doubling.grow
    split_ifs
    · exact ⟨times + 1, by rw [same, pow_succ]; ring⟩
    · exact ⟨times, same⟩
  holds := by
    intro other member
    rcases List.mem_append.mp member with earlier | new
    · exact (least.holds other earlier).trans (le_grow capacity need)
    · rw [List.mem_singleton.mp new]
      exact need_le_grow met
  least := by
    unfold Doubling.grow
    split_ifs with short
    · exact .inr ⟨need, by simp, by omega⟩
    · rcases least.least with same | ⟨other, member, large⟩
      · exact .inl same
      · exact .inr ⟨other, by simp [member], large⟩

theorem Least.run {first capacity : Nat} {seen needs : List Nat}
    (least : Least first seen capacity) (met : Suffices capacity needs) :
    Least first (seen ++ needs) (reached capacity needs) := by
  induction needs generalizing seen capacity with
  | nil => simpa using least
  | cons need rest inductionHypothesis =>
      have next := inductionHypothesis (least.grow met.1) met.2
      rwa [List.append_assoc, List.singleton_append] at next

/-- Requests that are met end at the smallest doubling that holds them all. -/
theorem least_reached {first : Nat} {needs : List Nat} (met : Suffices first needs) :
    Least first needs (reached first needs) := by
  have start : Least first [] first := ⟨⟨0, by simp⟩, nofun, .inl rfl⟩
  simpa using start.run met

end Dift.Foundation.Doubling
