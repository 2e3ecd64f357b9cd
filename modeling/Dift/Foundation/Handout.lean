import Mathlib.Tactic

/-!
Owns numbers that are handed out to parties: each number above a base and up to
the top is claimed by exactly one party, and the claims of a party increase.
Handing out the next number keeps this; when no party claims more than one
number above some bound, the top is no further above it than there are parties.
-/

namespace Dift.Foundation

variable {ι : Type*}

structure Handout (known : ι → Prop) (base top : Int) (claims : ι → List Int) : Prop where
  claimed : ∀ number, (∃ id, known id ∧ number ∈ claims id) ↔ base < number ∧ number ≤ top
  once : ∀ {first second number}, known first → known second →
    number ∈ claims first → number ∈ claims second → first = second
  rising : ∀ id, known id → (claims id).Pairwise (· < ·)

namespace Handout

variable {known : ι → Prop} {base top : Int} {claims : ι → List Int}

theorem start (nothing : ∀ id, known id → claims id = []) : Handout known base base claims where
  claimed := by
    intro number
    constructor
    · intro found
      obtain ⟨id, isKnown, member⟩ := found
      rw [nothing id isKnown] at member
      exact absurd member List.not_mem_nil
    · intro bounds
      exact absurd bounds.2 (not_le.mpr bounds.1)
  once := by
    intro first second number isKnown _ member _
    rw [nothing first isKnown] at member
    exact absurd member List.not_mem_nil
  rising := by
    intro id isKnown
    rw [nothing id isKnown]
    exact List.Pairwise.nil

theorem bounded (handout : Handout known base top claims) {id : ι} (isKnown : known id)
    {number : Int} (member : number ∈ claims id) : base < number ∧ number ≤ top :=
  (handout.claimed number).mp ⟨id, isKnown, member⟩

variable [DecidableEq ι]

/-- A claim is an earlier one, or the new one of the party that takes the next number. -/
theorem mem_update_iff {id other : ι} {number : Int} :
    number ∈ Function.update claims id (claims id ++ [top + 1]) other ↔
      number ∈ claims other ∨ other = id ∧ number = top + 1 := by
  by_cases isThis : other = id
  · rw [isThis, Function.update_self, List.mem_append, List.mem_singleton, eq_self, true_and]
  · rw [Function.update_of_ne isThis]
    exact ⟨.inl, fun either => either.resolve_right fun new => isThis new.1⟩

theorem next (handout : Handout known base top claims) (isRange : base ≤ top) {id : ι}
    (isKnown : known id) :
    Handout known base (top + 1) (Function.update claims id (claims id ++ [top + 1])) where
  claimed := by
    intro number
    have claimed := handout.claimed number
    constructor
    · intro found
      obtain ⟨other, isOther, member⟩ := found
      rcases mem_update_iff.mp member with earlier | new
      · have bounds := claimed.mp ⟨other, isOther, earlier⟩
        omega
      · omega
    · intro bounds
      by_cases isNew : number = top + 1
      · exact ⟨id, isKnown, mem_update_iff.mpr (.inr ⟨rfl, isNew⟩)⟩
      · obtain ⟨other, isOther, member⟩ := claimed.mpr ⟨bounds.1, by omega⟩
        exact ⟨other, isOther, mem_update_iff.mpr (.inl member)⟩
  once := by
    intro first second number isFirst isSecond inFirst inSecond
    rcases mem_update_iff.mp inFirst with earlier | new
    · have bounds := handout.bounded isFirst earlier
      rcases mem_update_iff.mp inSecond with alsoEarlier | new
      · exact handout.once isFirst isSecond earlier alsoEarlier
      · omega
    · rcases mem_update_iff.mp inSecond with earlier | alsoNew
      · have bounds := handout.bounded isSecond earlier
        omega
      · exact new.1.trans alsoNew.1.symm
  rising := by
    intro other isOther
    by_cases isThis : other = id
    · rw [isThis, Function.update_self, List.pairwise_append]
      refine ⟨handout.rising id isKnown, List.pairwise_singleton _ _, ?_⟩
      intro first earlier second isNew
      have bounds := handout.bounded isKnown earlier
      rw [List.mem_singleton] at isNew
      omega
    · rw [Function.update_of_ne isThis]
      exact handout.rising other isOther

omit [DecidableEq ι] in
/-- The numbers above a bound that no party claims two of. -/
theorem top_le {count : Nat} {claims : Nat → List Int}
    (handout : Handout (· < count) base top claims) {bound : Int} (above : base ≤ bound)
    (single : ∀ id < count, ∀ first ∈ claims id, ∀ second ∈ claims id,
      bound < first → bound < second → first = second) : top ≤ bound + count := by
  have held : ∀ number ∈ Finset.Ioc bound top, ∃ id < count, number ∈ claims id := by
    intro number member
    have bounds := Finset.mem_Ioc.mp member
    exact (handout.claimed number).mpr ⟨above.trans_lt bounds.1, bounds.2⟩
  choose! holder isKnown holds using held
  have few := Finset.card_le_card_of_injOn holder
    (fun number member => Finset.mem_range.mpr (isKnown number member))
    (fun first inFirst second inSecond same => single (holder first) (isKnown first inFirst) first
      (holds first inFirst) second (same ▸ holds second inSecond)
      (Finset.mem_Ioc.mp inFirst).1 (Finset.mem_Ioc.mp inSecond).1)
  rw [Int.card_Ioc, Finset.card_range] at few
  omega

end Handout

end Dift.Foundation
