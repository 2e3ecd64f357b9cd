import Mathlib.Data.Nat.Size
import Mathlib.Tactic

/-!
Owns two bit tricks on natural numbers. Smearing ors a number with itself
shifted, over doubling distances, until every bit below the highest one is set;
one more is then the least power of two above the number. Taking the conjunction
of a number and its predecessor clears the lowest bit that is set and keeps all
others, so that what is left last is the highest one.
-/

namespace Dift.Foundation.Bits

/-! ### Smearing -/

/-- The bits set in `smeared` are those with a bit of `number` fewer than `window`
places above them. -/
def Smeared (number window smeared : Nat) : Prop :=
  ∀ index, smeared.testBit index = true ↔
    ∃ distance < window, number.testBit (index + distance) = true

theorem smeared_one (number : Nat) : Smeared number 1 number := by
  intro index
  simp

/-- A shift by the window doubles it. -/
theorem Smeared.double {number window smeared : Nat} (before : Smeared number window smeared) :
    Smeared number (window + window) (smeared ||| smeared >>> window) := by
  intro index
  rw [Nat.testBit_or, Nat.testBit_shiftRight, Bool.or_eq_true, before, before]
  constructor
  · intro either
    cases either with
    | inl near =>
        obtain ⟨distance, small, set⟩ := near
        exact ⟨distance, by omega, set⟩
    | inr far =>
        obtain ⟨distance, small, set⟩ := far
        refine ⟨window + distance, by omega, ?_⟩
        rwa [← Nat.add_assoc, Nat.add_comm index window]
  · intro set
    obtain ⟨distance, small, set⟩ := set
    by_cases near : distance < window
    · exact .inl ⟨distance, near, set⟩
    · apply Or.inr
      refine ⟨distance - window, by omega, ?_⟩
      rwa [show window + index + (distance - window) = index + distance by omega]

/-- Between a power of two and its double the highest bit is set. -/
theorem testBit_of_between {number exponent : Nat} (atLeast : 2 ^ exponent ≤ number)
    (below : number < 2 ^ (exponent + 1)) : number.testBit exponent = true := by
  rw [Nat.testBit_eq_decide_div_mod_eq, decide_eq_true_eq,
    Nat.div_eq_of_lt_le (k := 1) (by rwa [one_mul]) (by rwa [pow_succ, mul_comm] at below)]

theorem testBit_size {number : Nat} (positive : 0 < number) :
    number.testBit (number.size - 1) = true := by
  have sized : 0 < number.size := Nat.size_pos.mpr positive
  apply testBit_of_between
  · exact Nat.lt_size.mp (by omega)
  · rw [Nat.sub_add_cancel sized]
    exact Nat.lt_size_self number

/-- A window as wide as the number sets all bits below the highest one. -/
theorem Smeared.eq {number window smeared : Nat} (whole : Smeared number window smeared)
    (wide : number.size ≤ window) : smeared = 2 ^ number.size - 1 := by
  apply Nat.eq_of_testBit_eq
  intro index
  rw [Nat.testBit_two_pow_sub_one, Bool.eq_iff_iff, whole, decide_eq_true_eq]
  constructor
  · intro set
    obtain ⟨distance, -, set⟩ := set
    by_contra above
    have small : number < 2 ^ (index + distance) :=
      (Nat.lt_size_self number).trans_le (Nat.pow_le_pow_right (by decide) (by omega))
    rw [Nat.testBit_lt_two_pow small] at set
    cases set
  · intro below
    have positive : 0 < number := Nat.size_pos.mp (by omega)
    refine ⟨number.size - 1 - index, by omega, ?_⟩
    rw [show index + (number.size - 1 - index) = number.size - 1 by omega]
    exact testBit_size positive

/-- The least power of two that is not below a number. -/
theorem size_pred_least {number exponent : Nat} (positive : 0 < number) :
    number ≤ 2 ^ exponent ↔ (number - 1).size ≤ exponent := by
  rw [Nat.size_le]
  omega

/-! ### Clearing the lowest bit -/

/-- Numbers that share a bit have a conjunction that is at least its value. -/
theorem two_pow_le_and {left right exponent : Nat} (inLeft : left.testBit exponent = true)
    (inRight : right.testBit exponent = true) : 2 ^ exponent ≤ left &&& right := by
  apply Nat.ge_two_pow_of_testBit
  rw [Nat.testBit_and, inLeft, inRight]
  rfl

/-- The highest bit stays, unless it is the only one. -/
theorem clear_between {number exponent : Nat} (atLeast : 2 ^ exponent ≤ number)
    (below : number < 2 ^ (exponent + 1)) (other : number ≠ 2 ^ exponent) :
    2 ^ exponent ≤ number &&& (number - 1) :=
  two_pow_le_and (testBit_of_between atLeast below)
    (testBit_of_between (by omega) (by omega))

theorem clear_lt {number : Nat} (positive : 0 < number) : number &&& (number - 1) < number := by
  have atMost : number &&& (number - 1) ≤ number - 1 := Nat.and_le_right
  omega

/-- Only a power of two has nothing left. -/
theorem clear_eq_zero_iff {number exponent : Nat} (atLeast : 2 ^ exponent ≤ number)
    (below : number < 2 ^ (exponent + 1)) :
    number &&& (number - 1) = 0 ↔ number = 2 ^ exponent := by
  have positive : 0 < 2 ^ exponent := Nat.two_pow_pos exponent
  constructor
  · intro nothing
    by_contra other
    have kept := clear_between atLeast below other
    omega
  · intro isPower
    apply Nat.eq_of_testBit_eq
    intro index
    rw [isPower, Nat.testBit_and, Nat.testBit_two_pow, Nat.testBit_two_pow_sub_one,
      Nat.zero_testBit]
    by_cases same : exponent = index <;> simp [same]

end Dift.Foundation.Bits
