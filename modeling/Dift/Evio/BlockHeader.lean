import Mathlib.Tactic

/-!
Owns the positions of a block of evio version 4 in a buffer: where the block
ends, where the next one starts, and how much of it is left. All three come from
one product of 32 bits, so that they are right exactly for sizes below 2 ^ 30.
-/

namespace Dift.Evio

/-- The fields of the class that the positions depend on. -/
structure BlockHeaderV4 where
  size : UInt32 := 0
  bufferStartingPosition : Int64 := 0
deriving DecidableEq, Repr

namespace BlockHeaderV4

/-- The error is that of the exception. -/
def setSize (header : BlockHeaderV4) (sz : UInt32) : Except String BlockHeaderV4 :=
  if sz < 8 then
    .error ("Bad value for size in block (physical record) header: " ++ toString sz.toNat)
  else .ok { header with size := sz }

def setBufferStartingPosition (header : BlockHeaderV4) (pos : UInt64) : BlockHeaderV4 :=
  { header with bufferStartingPosition := pos.toInt64 }

/-- The size is multiplied in 32 bits, the product added as a signed number of 64
bits: a sum that does not fit has no value. -/
def getBufferEndingPosition (header : BlockHeaderV4) : Option UInt64 :=
  let product : UInt32 := 4 * header.size
  let position : Int := header.bufferStartingPosition.toInt + product.toNat
  if position < 2 ^ 63 then some (Int64.ofInt position).toUInt64 else none

def nextBufferStartingPosition (header : BlockHeaderV4) : Option UInt64 :=
  header.getBufferEndingPosition

/-- The errors are those of the exceptions. -/
def bytesRemaining (header : BlockHeaderV4) (position : UInt64) :
    Option (Except String UInt64) :=
  if position < header.bufferStartingPosition.toUInt64 then
    some (.error "Provided position is less than buffer starting position.")
  else do
    let nextBufferStart ← header.nextBufferStartingPosition
    if position > nextBufferStart then
      some (.error "Provided position beyond buffer end position.")
    else some (.ok (nextBufferStart - position))

/-! ### The position behind the block -/

theorem setSize_ok_iff {header sized : BlockHeaderV4} {sz : UInt32} :
    header.setSize sz = .ok sized ↔ 8 ≤ sz.toNat ∧ sized = { header with size := sz } := by
  unfold setSize
  split_ifs with small
  · have below : sz.toNat < 8 := UInt32.lt_iff_toNat_lt.mp small
    simp [below]
  · have atLeast : 8 ≤ sz.toNat := by
      by_contra below
      exact small (UInt32.lt_iff_toNat_lt.mpr (not_le.mp below))
    simp [atLeast, eq_comm]

variable {header : BlockHeaderV4} {start : UInt64}

/-- What is added is the size without its upper two bits. -/
theorem product_toNat (size : UInt32) : (4 * size).toNat = 4 * (size.toNat % 2 ^ 30) := by
  rw [UInt32.toNat_mul]
  change 4 * size.toNat % 2 ^ 32 = _
  omega

theorem toInt_toInt64 (below : start.toNat < 2 ^ 63) : start.toInt64.toInt = start.toNat := by
  have back : start.toInt64 = Int64.ofNat start.toNat := by
    rw [← UInt64.toInt64_ofNat', UInt64.ofNat_toNat]
  rw [back, Int64.toInt_ofNat_of_lt below]

/-- The block ends behind the words that are left of its size. -/
theorem getBufferEndingPosition_eq (below : start.toNat < 2 ^ 63) :
    (header.setBufferStartingPosition start).getBufferEndingPosition =
      if start.toNat + 4 * (header.size.toNat % 2 ^ 30) < 2 ^ 63 then
        some (UInt64.ofNat (start.toNat + 4 * (header.size.toNat % 2 ^ 30))) else none := by
  simp only [getBufferEndingPosition, setBufferStartingPosition, toInt_toInt64 below,
    product_toNat]
  norm_cast

theorem getBufferEndingPosition_some_iff (below : start.toNat < 2 ^ 63) {position : UInt64} :
    (header.setBufferStartingPosition start).getBufferEndingPosition = some position ↔
      position.toNat = start.toNat + 4 * (header.size.toNat % 2 ^ 30) ∧
        position.toNat < 2 ^ 63 := by
  rw [getBufferEndingPosition_eq below]
  split_ifs with fits
  · rw [Option.some_inj, ← UInt64.toNat_inj, UInt64.toNat_ofNat', Nat.mod_eq_of_lt (by omega)]
    omega
  · simp only [false_iff, not_and]
    omega

/-! ### When the positions are right -/

/-- The next block starts right behind the words of this one, later than this one,
and the bytes that remain are known at the positions in between and nowhere else. -/
structure Exact (header : BlockHeaderV4) (start : UInt64) : Prop where
  next : ∃ position, header.nextBufferStartingPosition = some position ∧
    position.toNat = start.toNat + 4 * header.size.toNat ∧ start < position
  inside : ∀ position : UInt64, start.toNat ≤ position.toNat →
    position.toNat ≤ start.toNat + 4 * header.size.toNat →
    ∃ left, header.bytesRemaining position = some (.ok left) ∧
      position.toNat + left.toNat = start.toNat + 4 * header.size.toNat
  outside : ∀ position : UInt64,
    position.toNat < start.toNat ∨ start.toNat + 4 * header.size.toNat < position.toNat →
    ∃ message, header.bytesRemaining position = some (.error message)

theorem exact_of_next {following : UInt64}
    (isStart : header.bufferStartingPosition.toUInt64 = start)
    (isNext : header.nextBufferStartingPosition = some following)
    (behind : following.toNat = start.toNat + 4 * header.size.toNat)
    (occupied : 0 < header.size.toNat) : header.Exact start where
  next := ⟨following, isNext, behind, UInt64.lt_iff_toNat_lt.mpr (by omega)⟩
  inside := by
    intro position atLeast atMost
    have notBefore : ¬ position < start := mt UInt64.lt_iff_toNat_lt.mp (by omega)
    have notBehind : ¬ following < position := mt UInt64.lt_iff_toNat_lt.mp (by omega)
    refine ⟨following - position, ?_, ?_⟩
    · simp [bytesRemaining, isStart, isNext, notBefore, notBehind]
    · rw [UInt64.toNat_sub_of_le _ _ (UInt64.le_iff_toNat_le.mpr (by omega))]
      omega
  outside := by
    intro position either
    by_cases before : position < start
    · exact ⟨_, by rw [bytesRemaining, isStart, if_pos before]⟩
    · have behindNext : following < position := by
        rw [UInt64.lt_iff_toNat_lt] at before ⊢
        omega
      refine ⟨"Provided position beyond buffer end position.", ?_⟩
      simp [bytesRemaining, isStart, isNext, before, behindNext]

theorem positions_exact_iff {sized : BlockHeaderV4} {size : UInt32}
    (accepted : header.setSize size = .ok sized) (below : start.toNat < 2 ^ 63) :
    (sized.setBufferStartingPosition start).Exact start ↔
      size.toNat < 2 ^ 30 ∧ start.toNat + 4 * size.toNat < 2 ^ 63 := by
  obtain ⟨atLeast, isSized⟩ := setSize_ok_iff.mp accepted
  have isSize : sized.size = size := by rw [isSized]
  constructor
  · intro exact
    obtain ⟨position, isNext, behind, -⟩ := exact.next
    obtain ⟨ends, fits⟩ := (getBufferEndingPosition_some_iff below).mp isNext
    have bounded := Nat.mod_lt size.toNat (show 0 < 2 ^ 30 by decide)
    change position.toNat = start.toNat + 4 * sized.size.toNat at behind
    rw [isSize] at ends behind
    omega
  · intro condition
    obtain ⟨small, fits⟩ := condition
    have whole : size.toNat % 2 ^ 30 = size.toNat := Nat.mod_eq_of_lt small
    have value : (UInt64.ofNat (start.toNat + 4 * size.toNat)).toNat =
        start.toNat + 4 * size.toNat := by
      rw [UInt64.toNat_ofNat']
      exact Nat.mod_eq_of_lt (by omega)
    have isNext : (sized.setBufferStartingPosition start).nextBufferStartingPosition =
        some (UInt64.ofNat (start.toNat + 4 * size.toNat)) := by
      apply (getBufferEndingPosition_some_iff below).mpr
      rw [isSize, value, whole]
      exact ⟨rfl, fits⟩
    apply exact_of_next (UInt64.toUInt64_toInt64 start) isNext
    · change _ = start.toNat + 4 * sized.size.toNat
      rw [value, isSize]
    · change 0 < sized.size.toNat
      rw [isSize]
      omega

theorem positions_exact_iff_eight :
    ({} : BlockHeaderV4).setSize 8 = .ok { size := 8 } ∧ (96 : UInt64).toNat < 2 ^ 63 ∧
      (({ size := 8 } : BlockHeaderV4).setBufferStartingPosition 96).Exact 96 := by
  have accepted : ({} : BlockHeaderV4).setSize 8 = .ok { size := 8 } := by decide
  have below : (96 : UInt64).toNat < 2 ^ 63 := by decide
  exact ⟨accepted, below, (positions_exact_iff accepted below).mpr (by decide)⟩

/-- A block of 2 ^ 30 words, as the setter accepts it, is followed by itself. -/
theorem not_exact_two_pow_thirty :
    ({} : BlockHeaderV4).setSize 0x40000000 = .ok { size := 0x40000000 } ∧
      (({ size := 0x40000000 } : BlockHeaderV4).setBufferStartingPosition
        96).nextBufferStartingPosition = some 96 ∧
      ¬ (({ size := 0x40000000 } : BlockHeaderV4).setBufferStartingPosition 96).Exact 96 := by
  refine ⟨by decide, by decide, ?_⟩
  intro exact
  obtain ⟨position, isNext, behind, -⟩ := exact.next
  have isStart : position = 96 := by
    have same : some position = some 96 := isNext.symm.trans (by decide)
    exact Option.some.inj same
  subst isStart
  revert behind
  decide

/-- A scan from block to block stands still exactly at sizes that are multiples of
2 ^ 30. -/
theorem nextBufferStartingPosition_eq_start_iff (below : start.toNat < 2 ^ 63) :
    (header.setBufferStartingPosition start).nextBufferStartingPosition = some start ↔
      2 ^ 30 ∣ header.size.toNat := by
  rw [nextBufferStartingPosition, getBufferEndingPosition_some_iff below, Nat.dvd_iff_mod_eq_zero]
  omega

end BlockHeaderV4

end Dift.Evio
