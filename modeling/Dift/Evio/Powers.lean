import Dift.Foundation.Bits
import Dift.Foundation.Loop

/-!
Owns `Util::powerOfTwo`. An `int` has 32 bits, and a sum or difference that does
not fit has no value. Rounding up smears the bits of the number below, rounding
down clears the lowest bit until nothing would be left; both give a power of two
and do not overflow.
-/

namespace Dift.Evio.Powers

open Dift.Foundation

/-- The `int` with this value, where there is one. -/
def toInt32? (value : Int) : Option Int32 :=
  if -2 ^ 31 ≤ value ∧ value < 2 ^ 31 then some (Int32.ofInt value) else none

/-- The branch that rounds up. -/
def roundedUp (x : Int32) : Option Int32 := do
  let x ← toInt32? (x.toInt - 1)
  let x := x ||| x >>> 1
  let x := x ||| x >>> 2
  let x := x ||| x >>> 4
  let x := x ||| x >>> 8
  let x := x ||| x >>> 16
  toInt32? (x.toInt + 1)

/-- The body of the loop that rounds down. -/
def clearRound (x : Int32) : Round Int32 (Option Int32) :=
  let y := x
  match toInt32? (x.toInt - 1) with
  | none => .leave none
  | some before =>
      let x := x &&& before
      if x ≠ 0 then .again x else .leave (some y)

/-- There is no result when the fuel does not suffice, and no value when an
`int` overflows. -/
def powerOfTwo (fuel : Nat) (x : Int32) (roundUp : Bool) : Option (Option Int32) :=
  if x < 0 then some (some (-1))
  else if roundUp then some (roundedUp x)
  else iterate clearRound fuel x

/-! ### Numbers that are not negative -/

/-- An `int` that is not negative, as the number of its bits. -/
def Stands (x : Int32) (number : Nat) : Prop :=
  number < 2 ^ 31 ∧ x.toBitVec.toNat = number

theorem Stands.toInt {x : Int32} {number : Nat} (stands : Stands x number) :
    x.toInt = number := by
  rw [Int32.toInt, BitVec.toInt_eq_toNat_of_lt, stands.2]
  rw [stands.2]
  have small := stands.1
  omega

theorem stands_of_nonneg {x : Int32} (nonneg : 0 ≤ x.toInt) : Stands x x.toInt.toNat := by
  have small : 2 * x.toBitVec.toNat < 2 ^ 32 := by
    by_contra large
    have negative : x.toBitVec.toInt < 0 := BitVec.toInt_neg_iff.mpr (by omega)
    exact absurd nonneg (not_le.mpr negative)
  have same : x.toInt = x.toBitVec.toNat := BitVec.toInt_eq_toNat_of_lt small
  rw [same, Int.toNat_natCast]
  exact ⟨by omega, rfl⟩

theorem toInt32?_of_lt {value : Int} {number : Nat} (isNumber : value = number)
    (small : number < 2 ^ 31) : ∃ x, toInt32? value = some x ∧ Stands x number := by
  refine ⟨Int32.ofInt value, if_pos (by omega), small, ?_⟩
  have same : (Int32.ofInt value).toInt = value :=
    Int32.toInt_ofInt_of_le (by omega) (by omega)
  have stands := stands_of_nonneg (x := Int32.ofInt value) (by omega)
  rw [stands.2]
  omega

/-- Above zero the difference with one does not overflow. -/
theorem Stands.pred {x : Int32} {number : Nat} (stands : Stands x number)
    (positive : 0 < number) :
    ∃ before, toInt32? (x.toInt - 1) = some before ∧ Stands before (number - 1) := by
  have small := stands.1
  apply toInt32?_of_lt _ (by omega)
  rw [stands.toInt]
  omega

theorem Stands.smear {x : Int32} {number : Nat} (stands : Stands x number) (distance : Int32)
    (step : Nat) (isStep : (distance.toBitVec.smod 32).toNat = step) :
    Stands (x ||| x >>> distance) (number ||| number >>> step) := by
  have positive : x.toBitVec.msb = false := by
    rw [BitVec.msb_eq_false_iff_two_mul_lt, stands.2]
    have small := stands.1
    omega
  constructor
  · apply Nat.or_lt_two_pow stands.1
    exact lt_of_le_of_lt (Nat.shiftRight_le number step) stands.1
  · rw [Int32.toBitVec_or, Int32.toBitVec_shiftRight, BitVec.toNat_or,
      BitVec.sshiftRight_eq', isStep, BitVec.sshiftRight_eq_of_msb_false positive,
      BitVec.toNat_ushiftRight, stands.2]

theorem Stands.and {x y : Int32} {left right : Nat} (first : Stands x left)
    (second : Stands y right) : Stands (x &&& y) (left &&& right) := by
  constructor
  · exact lt_of_le_of_lt Nat.and_le_left first.1
  · rw [Int32.toBitVec_and, BitVec.toNat_and, first.2, second.2]

theorem Stands.eq_zero_iff {x : Int32} {number : Nat} (stands : Stands x number) :
    x = 0 ↔ number = 0 := by
  rw [← Int32.toInt_inj, stands.toInt]
  exact Int.natCast_eq_zero

theorem not_lt_zero {x : Int32} (nonneg : 0 ≤ x.toInt) : ¬ x < 0 := by
  rw [Int32.lt_iff_toInt_lt]
  exact not_lt.mpr nonneg

/-! ### Rounding up -/

/-- The least power of two that is not below a number. -/
def LeastAbove (number result : Int) : Prop :=
  (∃ exponent : Nat, result = 2 ^ exponent) ∧ number ≤ result ∧
    ∀ exponent : Nat, number ≤ 2 ^ exponent → result ≤ 2 ^ exponent

theorem leastAbove_size {number : Nat} (positive : 0 < number) :
    LeastAbove number (2 ^ (number - 1).size : Nat) := by
  refine ⟨⟨(number - 1).size, by push_cast; rfl⟩, ?_, ?_⟩
  · exact_mod_cast (Bits.size_pred_least positive).mpr le_rfl
  · intro exponent atMost
    have least : (number - 1).size ≤ exponent :=
      (Bits.size_pred_least positive).mp (by exact_mod_cast atMost)
    exact_mod_cast Nat.pow_le_pow_right (by decide) least

/-- Smearing gives the number one less than the power. -/
theorem roundedUp_eq {x : Int32} {number : Nat} (stands : Stands x number)
    (positive : 0 < number) (atMost : number ≤ 2 ^ 30) :
    ∃ power, roundedUp x = some power ∧ Stands power (2 ^ (number - 1).size) := by
  obtain ⟨before, isBefore, standsBefore⟩ := stands.pred positive
  have narrow : (number - 1).size ≤ 30 := Nat.size_le.mpr (by omega)
  have smeared := (Bits.smeared_one (number - 1)).double.double.double.double.double.eq (by omega)
  have standsOne := standsBefore.smear 1 1 (by decide)
  have standsTwo := standsOne.smear 2 2 (by decide)
  have standsFour := standsTwo.smear 4 4 (by decide)
  have standsEight := standsFour.smear 8 8 (by decide)
  have standsSmeared := standsEight.smear 16 16 (by decide)
  have fits : 2 ^ (number - 1).size ≤ 2 ^ 30 := Nat.pow_le_pow_right (by decide) narrow
  have powerPositive : 0 < 2 ^ (number - 1).size := Nat.two_pow_pos _
  rw [roundedUp, isBefore, Option.bind_eq_bind, Option.bind_some]
  apply toInt32?_of_lt _ (by omega)
  rw [standsSmeared.toInt, smeared]
  omega

/-! ### Rounding down -/

/-- The greatest power of two that is not above a number. -/
def GreatestBelow (number result : Int) : Prop :=
  (∃ exponent : Nat, result = 2 ^ exponent) ∧ result ≤ number ∧
    ∀ exponent : Nat, 2 ^ exponent ≤ number → 2 ^ exponent ≤ result

theorem clearRound_eq {x : Int32} {number : Nat} (stands : Stands x number)
    (positive : 0 < number) :
    ∃ rest, Stands rest (number &&& (number - 1)) ∧
      clearRound x = if rest ≠ 0 then .again rest else .leave (some x) := by
  obtain ⟨before, isBefore, standsBefore⟩ := stands.pred positive
  apply Exists.intro (x &&& before)
  rw [clearRound, isBefore]
  exact ⟨stands.and standsBefore, rfl⟩

/-- Between a power of two and its double the loop finds the power. -/
theorem returns_power {exponent : Nat} {x : Int32} {number : Nat} (stands : Stands x number)
    (atLeast : 2 ^ exponent ≤ number) (below : number < 2 ^ (exponent + 1)) :
    ∃ power, Returns clearRound x (some power) ∧ Stands power (2 ^ exponent) := by
  have one : 0 < 2 ^ exponent := Nat.two_pow_pos exponent
  -- every round makes the number smaller and keeps its highest bit
  induction number using Nat.strong_induction_on generalizing x with
  | _ number inductionHypothesis =>
      obtain ⟨rest, standsRest, round⟩ := clearRound_eq stands (by omega)
      have smaller : number &&& (number - 1) < number := Bits.clear_lt (by omega)
      by_cases isPower : number = 2 ^ exponent
      · apply Exists.intro x
        apply And.intro _ (isPower ▸ stands)
        apply Returns.of_leave
        rw [round, if_neg]
        rw [not_not, standsRest.eq_zero_iff]
        exact (Bits.clear_eq_zero_iff atLeast below).mpr isPower
      · have kept := Bits.clear_between atLeast below isPower
        have again : clearRound x = .again rest := by
          rw [round, if_pos]
          rw [ne_eq, standsRest.eq_zero_iff]
          omega
        obtain ⟨power, returns, isPower⟩ :=
          inductionHypothesis _ smaller standsRest kept (by omega)
        exact ⟨power, (returns_iff_of_again again).mpr returns, isPower⟩

theorem greatestBelow_log2 {number : Nat} (positive : 0 < number) :
    GreatestBelow number (2 ^ number.log2 : Nat) := by
  have atLeast := Nat.log2_self_le (n := number) (by omega)
  refine ⟨⟨number.log2, by push_cast; rfl⟩, by exact_mod_cast atLeast, ?_⟩
  intro exponent atMost
  have within : exponent ≤ number.log2 :=
    (Nat.le_log2 (by omega)).mpr (by exact_mod_cast atMost)
  exact_mod_cast Nat.pow_le_pow_right (by decide) within

/-! ### The function -/

/-- Rounding down finds the power of the highest bit. -/
theorem powerOfTwo_down {x : Int32} (nonneg : 0 ≤ x.toInt) (positive : 0 < x.toInt.toNat) :
    ∃ fuel power, powerOfTwo fuel x false = some (some power) ∧
      Stands power (2 ^ x.toInt.toNat.log2) := by
  obtain ⟨power, ⟨fuel, done⟩, isPower⟩ := returns_power (stands_of_nonneg nonneg)
    (Nat.log2_self_le (by omega)) Nat.lt_log2_self
  refine ⟨fuel, power, ?_, isPower⟩
  rwa [powerOfTwo, if_neg (not_lt_zero nonneg), if_neg (by decide)]

/-- Rounding down returns for every `int`. -/
theorem powerOfTwo_returns (x : Int32) : ∃ fuel result, powerOfTwo fuel x false = some result := by
  by_cases negative : x < 0
  · exact ⟨0, some (-1), if_pos negative⟩
  · have nonneg : 0 ≤ x.toInt := by
      rw [Int32.lt_iff_toInt_lt] at negative
      exact not_lt.mp negative
    have stands := stands_of_nonneg nonneg
    by_cases zero : x = 0
    · exact ⟨1, some 0, by rw [zero]; decide⟩
    · have positive : 0 < x.toInt.toNat := by
        rw [stands.eq_zero_iff] at zero
        omega
      obtain ⟨fuel, power, returned, -⟩ := powerOfTwo_down nonneg positive
      exact ⟨fuel, some power, returned⟩

/-- Rounding down returns for every `int`. For a positive one, rounding up gives the
least power of two above, as far as an `int` holds it, and rounding down the greatest
below; neither overflows. -/
theorem powerOfTwo_correct (x : Int32) :
    (∃ fuel result, powerOfTwo fuel x false = some result) ∧
    (1 ≤ x.toInt →
      (x.toInt ≤ 2 ^ 30 → ∀ fuel, ∃ power, powerOfTwo fuel x true = some (some power) ∧
        LeastAbove x.toInt power.toInt) ∧
      ∃ fuel power, powerOfTwo fuel x false = some (some power) ∧
        GreatestBelow x.toInt power.toInt) := by
  refine ⟨powerOfTwo_returns x, fun positive => ?_⟩
  have stands := stands_of_nonneg (x := x) (by omega)
  have same : x.toInt = x.toInt.toNat := by omega
  constructor
  · intro atMost fuel
    obtain ⟨power, rounds, isPower⟩ := roundedUp_eq stands (by omega) (by omega)
    refine ⟨power, ?_, ?_⟩
    · rw [powerOfTwo, if_neg (not_lt_zero (by omega)), if_pos rfl, rounds]
    · rw [isPower.toInt, same]
      exact leastAbove_size (by omega)
  · obtain ⟨fuel, power, returned, isPower⟩ := powerOfTwo_down (x := x) (by omega) (by omega)
    refine ⟨fuel, power, returned, ?_⟩
    rw [isPower.toInt, same]
    exact greatestBelow_log2 (by omega)

theorem powerOfTwo_correct_twelve :
    (∀ fuel, ∃ power, powerOfTwo fuel 12 true = some (some power) ∧ LeastAbove 12 power.toInt) ∧
      ∃ fuel power, powerOfTwo fuel 12 false = some (some power) ∧
        GreatestBelow 12 power.toInt :=
  ⟨((powerOfTwo_correct 12).2 (by decide)).1 (by decide),
    ((powerOfTwo_correct 12).2 (by decide)).2⟩

example : powerOfTwo 0 12 true = some (some 16) ∧ powerOfTwo 2 12 false = some (some 8) := by
  decide

end Dift.Evio.Powers
