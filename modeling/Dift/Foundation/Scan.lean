import Mathlib.Tactic

/-!
Owns the minimum of counters that others may raise while it is taken. Each
counter is read once, in any order; the result is a lower bound of all of them
because a counter that was read can only have grown since.
-/

namespace Dift.Foundation

/-- The counters that are still to be read, and the least value so far. -/
structure Scan (ι γ : Type*) where
  pending : List ι
  minimum : γ
deriving DecidableEq, Repr

namespace Scan

variable {ι γ : Type*} [DecidableEq ι] [LinearOrder γ]

/-- One read. -/
def read (scan : Scan ι γ) (id : ι) (value : γ) : Option (Scan ι γ) :=
  if id ∈ scan.pending then some ⟨scan.pending.erase id, min scan.minimum value⟩ else none

/-- The minimum is a lower bound of the counters that are no longer pending. -/
def Below (scan : Scan ι γ) (known : ι → Prop) (counters : ι → γ) : Prop :=
  ∀ id, known id → id ∉ scan.pending → scan.minimum ≤ counters id

omit [DecidableEq ι] in
theorem below_start {known : ι → Prop} {pending : List ι} (all : ∀ id, known id → id ∈ pending)
    (start : γ) (counters : ι → γ) : Below ⟨pending, start⟩ known counters :=
  fun id isKnown notPending => absurd (all id isKnown) notPending

omit [DecidableEq ι] in
theorem Below.mono {scan : Scan ι γ} {known : ι → Prop} {counters later : ι → γ}
    (below : scan.Below known counters) (grown : ∀ id, known id → counters id ≤ later id) :
    scan.Below known later :=
  fun id isKnown notPending => (below id isKnown notPending).trans (grown id isKnown)

theorem Below.read {scan after : Scan ι γ} {known : ι → Prop} {counters : ι → γ} {id : ι}
    (below : scan.Below known counters) (done : scan.read id (counters id) = some after) :
    after.Below known counters ∧ after.minimum ≤ scan.minimum := by
  rcases Option.ite_none_right_eq_some.mp done with ⟨-, isAfter⟩
  cases isAfter
  constructor
  · intro other isKnown notPending
    by_cases isThis : other = id
    · rw [isThis]
      exact min_le_right _ _
    · have earlier : other ∉ scan.pending := fun pending =>
        notPending ((List.mem_erase_of_ne isThis).mpr pending)
      exact (min_le_left _ _).trans (below other isKnown earlier)
  · exact min_le_left _ _

omit [DecidableEq ι] in
/-- When all are read, the minimum is a lower bound of all. -/
theorem Below.all {scan : Scan ι γ} {known : ι → Prop} {counters : ι → γ}
    (below : scan.Below known counters) (done : scan.pending = []) :
    ∀ id, known id → scan.minimum ≤ counters id :=
  fun id isKnown => below id isKnown (by rw [done]; exact List.not_mem_nil)

end Scan

end Dift.Foundation
