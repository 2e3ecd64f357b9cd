import Mathlib.Data.Nat.Bitwise
import Mathlib.Tactic

/-!
Owns ranges of sequences, and the two words that a multi-producer sequencer
computes from a sequence: the index of its slot, and the flag that says which lap
the slot is on. Sequences are integers; `int` casts and shifts act on their
words.
-/

namespace Dift.Disruptor

/-- The sequences from `lo` to `hi`. -/
def sequences (lo hi : Int) : List Int :=
  (List.range (hi + 1 - lo).toNat).map fun index : Nat => lo + index

theorem mem_sequences {lo hi sequence : Int} :
    sequence ∈ sequences lo hi ↔ lo ≤ sequence ∧ sequence ≤ hi := by
  simp only [sequences, List.mem_map, List.mem_range]
  constructor
  · intro found
    obtain ⟨index, below, rfl⟩ := found
    omega
  · intro bounds
    exact ⟨(sequence - lo).toNat, by omega, by omega⟩

theorem sequences_append {lo middle hi : Int} (first : lo ≤ middle + 1) (second : middle ≤ hi) :
    sequences lo middle ++ sequences (middle + 1) hi = sequences lo hi := by
  have size : (hi + 1 - lo).toNat =
      (middle + 1 - lo).toNat + (hi + 1 - (middle + 1)).toNat := by omega
  rw [sequences, sequences, sequences, size, List.range_add, List.map_append, List.map_map]
  congr 1
  apply List.map_congr_left
  intro index _
  simp only [Function.comp_apply]
  omega

theorem sequences_succ {lo hi : Int} (isRange : lo ≤ hi + 1) :
    sequences lo hi ++ [hi + 1] = sequences lo (hi + 1) := by
  have single : sequences (hi + 1) (hi + 1) = [hi + 1] := by
    rw [sequences, show (hi + 1 + 1 - (hi + 1)).toNat = 1 by omega]
    simp
  rw [← sequences_append isRange (show hi ≤ hi + 1 by omega), single]

/-- `static_cast<std::int32_t>(sequence) & m_indexMask`. -/
def calculateIndex (indexShift : Nat) (sequence : Int) : Nat :=
  (BitVec.ofInt 32 sequence &&& BitVec.ofNat 32 (2 ^ indexShift - 1)).toNat

/-- `static_cast<std::int32_t>(static_cast<std::uint64_t>(sequence) >> m_indexShift)`. -/
def calculateAvailabilityFlag (indexShift : Nat) (sequence : Int) : BitVec 32 :=
  (BitVec.ofInt 64 sequence >>> indexShift).setWidth 32

theorem calculateIndex_eq {indexShift : Nat} (small : indexShift ≤ 30) (sequence : Int) :
    (calculateIndex indexShift sequence : Int) = sequence % 2 ^ indexShift := by
  have size : 2 ^ indexShift - 1 < 2 ^ 32 :=
    (Nat.sub_le _ _).trans_lt (Nat.pow_lt_pow_right (by decide) (by omega))
  have divides : (2 ^ indexShift : Int) ∣ ((2 ^ 32 : Nat) : Int) := by
    rw [Nat.cast_pow]
    exact pow_dvd_pow (2 : Int) (by omega)
  have nonneg : 0 ≤ sequence % ((2 ^ 32 : Nat) : Int) := Int.emod_nonneg _ (by decide)
  rw [calculateIndex, BitVec.toNat_and, BitVec.toNat_ofNat, Nat.mod_eq_of_lt size,
    Nat.and_two_pow_sub_one_eq_mod, BitVec.toNat_ofInt, Int.natCast_emod,
    Int.toNat_of_nonneg nonneg, Nat.cast_pow]
  exact Int.emod_emod_of_dvd sequence divides

theorem calculateIndex_sub {indexShift : Nat} (small : indexShift ≤ 30) (sequence : Int) :
    calculateIndex indexShift (sequence - 2 ^ indexShift) = calculateIndex indexShift sequence := by
  apply Int.ofNat_inj.mp
  rw [calculateIndex_eq small, calculateIndex_eq small, Int.sub_emod_right]

/-- Sequences less than one lap apart have slots of their own. -/
theorem calculateIndex_ne {indexShift : Nat} (small : indexShift ≤ 30) {first second : Int}
    (different : first ≠ second) (near : first - second < 2 ^ indexShift)
    (nearBack : second - first < 2 ^ indexShift) :
    calculateIndex indexShift first ≠ calculateIndex indexShift second := by
  intro same
  have residues : first % 2 ^ indexShift = second % 2 ^ indexShift := by
    rw [← calculateIndex_eq small, ← calculateIndex_eq small, same]
  have divides : (2 ^ indexShift : Int) ∣ first - second :=
    Int.dvd_of_emod_eq_zero (Int.emod_eq_emod_iff_emod_sub_eq_zero.mp residues)
  have zero := Int.eq_zero_of_abs_lt_dvd divides (abs_lt.mpr ⟨by omega, near⟩)
  omega

/-- Shifting the 64-bit word and cutting it to 32 bits keeps the lap. -/
theorem lap_word {indexShift : Nat} (small : indexShift ≤ 30) (sequence : Int) :
    sequence % 2 ^ 64 / 2 ^ indexShift % 2 ^ 32 = sequence / 2 ^ indexShift % 2 ^ 32 := by
  have split : sequence % 2 ^ 64 =
      sequence + 2 ^ indexShift * (2 ^ 32 * (-(2 ^ (32 - indexShift) * (sequence / 2 ^ 64)))) := by
    have whole : (2 ^ 64 : Int) = 2 ^ indexShift * (2 ^ 32 * 2 ^ (32 - indexShift)) := by
      rw [← pow_add, ← pow_add]
      congr 1
      omega
    have parts := Int.mul_ediv_add_emod sequence (2 ^ 64)
    calc
      sequence % 2 ^ 64 = sequence - 2 ^ 64 * (sequence / 2 ^ 64) := by omega
      _ = sequence - 2 ^ indexShift * (2 ^ 32 * 2 ^ (32 - indexShift)) * (sequence / 2 ^ 64) := by
        rw [← whole]
      _ = _ := by ring
  have positive : (2 ^ indexShift : Int) ≠ 0 := by positivity
  rw [split, Int.add_mul_ediv_left _ _ positive, Int.add_mul_emod_self_left]

/-- The flag is the lap, as a 32-bit word. -/
theorem calculateAvailabilityFlag_eq {indexShift : Nat} (small : indexShift ≤ 30)
    (sequence : Int) :
    calculateAvailabilityFlag indexShift sequence = BitVec.ofInt 32 (sequence / 2 ^ indexShift) := by
  apply BitVec.eq_of_toNat_eq
  apply Int.ofNat_inj.mp
  have nonneg : 0 ≤ sequence % ((2 ^ 64 : Nat) : Int) := Int.emod_nonneg _ (by decide)
  have nonnegLap : 0 ≤ sequence / 2 ^ indexShift % ((2 ^ 32 : Nat) : Int) :=
    Int.emod_nonneg _ (by decide)
  rw [calculateAvailabilityFlag, BitVec.toNat_setWidth, BitVec.toNat_ushiftRight,
    BitVec.toNat_ofInt, BitVec.toNat_ofInt, Nat.shiftRight_eq_div_pow, Int.natCast_emod,
    Int.natCast_ediv, Int.toNat_of_nonneg nonneg, Int.toNat_of_nonneg nonnegLap, Nat.cast_pow]
  exact lap_word small sequence

/-- A slot's flag changes from lap to lap. -/
theorem calculateAvailabilityFlag_sub_ne {indexShift : Nat} (small : indexShift ≤ 30)
    (sequence : Int) : calculateAvailabilityFlag indexShift (sequence - 2 ^ indexShift) ≠
      calculateAvailabilityFlag indexShift sequence := by
  intro same
  have positive : (2 ^ indexShift : Int) ≠ 0 := by positivity
  have lap : (sequence - 2 ^ indexShift) / 2 ^ indexShift = sequence / 2 ^ indexShift - 1 := by
    rw [Int.sub_ediv_of_dvd _ (dvd_refl _), Int.ediv_self positive]
  rw [calculateAvailabilityFlag_eq small, calculateAvailabilityFlag_eq small, lap] at same
  rw [Int.sub_eq_add_neg, BitVec.ofInt_add, show BitVec.ofInt 32 (-1) = 4294967295#32 from rfl]
    at same
  bv_omega

/-- Before the first lap the flag is -1, as the buffer is initialised. -/
theorem calculateAvailabilityFlag_before {indexShift : Nat} (small : indexShift ≤ 30)
    {sequence : Int} (negative : sequence < 0) (last : -2 ^ indexShift ≤ sequence) :
    calculateAvailabilityFlag indexShift sequence = -1 := by
  have positive : (0 : Int) < 2 ^ indexShift := by positivity
  have lap : sequence / 2 ^ indexShift = -1 := by
    rw [Int.ediv_eq_iff_of_pos positive]
    omega
  rw [calculateAvailabilityFlag_eq small, lap]
  rfl

end Dift.Disruptor
