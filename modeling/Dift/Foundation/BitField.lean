import Mathlib.Tactic

/-!
Owns sets of bits that stand in a word from some bit on: the loop that ors a set
into a word, the loop that fills a set from a word, and what either does to each
single bit.
-/

namespace Dift.Foundation.BitField

variable {n w : Nat}

/-- Or some bits of a set into a word. -/
def packSome (set : Fin n → Bool) (start : Nat) (word : BitVec w) (places : List (Fin n)) :
    BitVec w :=
  places.foldl (fun word place =>
    if set place then word ||| 1#w <<< (start + place) else word) word

/-- Or a set into a word, bit by bit. -/
def pack (set : Fin n → Bool) (start : Nat) (word : BitVec w) : BitVec w :=
  packSome set start word (List.finRange n)

/-- Assign some bits of a set. -/
def fill (set value : Fin n → Bool) (places : List (Fin n)) : Fin n → Bool :=
  places.foldl (fun set place => Function.update set place (value place)) set

/-- Fill a set from a word, bit by bit. -/
def unpack (word : BitVec w) (start : Nat) (set : Fin n → Bool) : Fin n → Bool :=
  fill set (fun place => decide (word >>> (start + place) &&& 1#w > 0)) (List.finRange n)

/-! ### Single bits -/

theorem getLsbD_one_shiftLeft (place index : Nat) :
    (1#w <<< place).getLsbD index = (decide (index < w) && decide (index = place)) := by
  rw [BitVec.getLsbD_shiftLeft, BitVec.getLsbD_one]
  by_cases inside : index < w
  · have positive : 0 < w := by omega
    by_cases same : index = place
    · simp [same, positive]
    · by_cases below : index < place
      · simp [below, same]
      · have differs : index - place ≠ 0 := by omega
        simp [differs, same]
  · simp [inside]

theorem pos_iff_ne (bits : BitVec w) : bits > 0 ↔ bits ≠ 0#w := by
  rw [gt_iff_lt, BitVec.lt_def, ne_eq, ← BitVec.toNat_inj]
  exact Nat.pos_iff_ne_zero

/-- A bit that is shifted down. -/
theorem shiftRight_and_one_pos (word : BitVec w) (place : Nat) :
    decide (word >>> place &&& 1#w > 0) = word.getLsbD place := by
  have isBit : word >>> place &&& 1#w > 0 ↔ word.getLsbD place = true := by
    rw [pos_iff_ne]
    constructor
    · intro holds
      by_contra unset
      apply holds
      apply BitVec.eq_of_getLsbD_eq
      intro index _
      rw [BitVec.getLsbD_and, BitVec.getLsbD_ushiftRight, BitVec.getLsbD_one]
      by_cases first : index = 0
      · subst first
        simp [Bool.eq_false_iff.mpr unset]
      · simp [first]
    · intro isSet isZero
      have lowest := congrArg (fun bits => bits.getLsbD 0) isZero
      have positive : 0 < w := lt_of_le_of_lt (Nat.zero_le place) (BitVec.lt_of_getLsbD isSet)
      simp [isSet, positive] at lowest
  rw [Bool.eq_iff_iff, decide_eq_true_iff, isBit]

/-- A mask of one bit. -/
theorem and_one_shiftLeft_pos (word : BitVec w) (place : Nat) :
    decide (word &&& 1#w <<< place > 0) = word.getLsbD place := by
  rw [← shiftRight_and_one_pos, Bool.eq_iff_iff, decide_eq_true_iff, decide_eq_true_iff]
  have zero_iff : word &&& 1#w <<< place = 0#w ↔ word >>> place &&& 1#w = 0#w := by
    constructor
    · intro isZero
      apply BitVec.eq_of_getLsbD_eq
      intro index inside
      have bit := congrArg (fun bits => bits.getLsbD place) isZero
      rw [BitVec.getLsbD_and, getLsbD_one_shiftLeft, BitVec.getLsbD_zero] at bit
      rw [BitVec.getLsbD_and, BitVec.getLsbD_ushiftRight, BitVec.getLsbD_one, BitVec.getLsbD_zero]
      by_cases first : index = 0
      · subst first
        by_cases within : place < w
        · have unset : word.getLsbD place = false := by simpa [within] using bit
          simp [unset]
        · simp [BitVec.getLsbD_of_ge word place (not_lt.mp within)]
      · simp [first]
    · intro isZero
      apply BitVec.eq_of_getLsbD_eq
      intro index inside
      have bit := congrArg (fun bits => bits.getLsbD 0) isZero
      rw [BitVec.getLsbD_and, BitVec.getLsbD_ushiftRight, BitVec.getLsbD_one,
        BitVec.getLsbD_zero] at bit
      rw [BitVec.getLsbD_and, getLsbD_one_shiftLeft, BitVec.getLsbD_zero]
      by_cases same : index = place
      · subst same
        have positive : 0 < w := by omega
        have unset : word.getLsbD index = false := by simpa [positive] using bit
        simp [unset]
      · simp [same]
  rw [pos_iff_ne, pos_iff_ne, ne_eq, ne_eq, zero_iff]

section Pack

variable (set : Fin n → Bool) (start : Nat) (word : BitVec w)

theorem getLsbD_packSome (places : List (Fin n)) (index : Nat) :
    (packSome set start word places).getLsbD index =
      (word.getLsbD index || decide (index < w) &&
        places.any fun place => set place && decide (index = start + place)) := by
  induction places generalizing word with
  | nil => simp [packSome]
  | cons place rest inductionHypothesis =>
      have tail := inductionHypothesis
        (if set place then word ||| 1#w <<< (start + place) else word)
      rw [packSome] at tail ⊢
      rw [List.foldl_cons, tail, List.any_cons]
      cases isSet : set place with
      | false => simp
      | true =>
          rw [if_pos rfl, BitVec.getLsbD_or, getLsbD_one_shiftLeft, Bool.true_and,
            Bool.and_or_distrib_left, Bool.or_assoc]

/-- A bit of the set. -/
theorem getLsbD_pack_inside (place : Fin n) (inside : start + place < w) :
    (pack set start word).getLsbD (start + place) =
      (word.getLsbD (start + place) || set place) := by
  have found : ((List.finRange n).any fun other =>
      set other && decide (start + (place : Nat) = start + other)) = set place := by
    rw [Bool.eq_iff_iff, List.any_eq_true]
    constructor
    · intro isThere
      rcases isThere with ⟨other, -, both⟩
      rw [Bool.and_eq_true, decide_eq_true_iff] at both
      have same : place = other := Fin.ext (by omega)
      rw [same]
      exact both.1
    · intro isSet
      exact ⟨place, List.mem_finRange place, by simp [isSet]⟩
  rw [pack, getLsbD_packSome, found, decide_eq_true inside, Bool.true_and]

/-- A bit that is not of the set. -/
theorem getLsbD_pack_outside {index : Nat} (outside : index < start ∨ start + n ≤ index) :
    (pack set start word).getLsbD index = word.getLsbD index := by
  have noPlace : ((List.finRange n).any fun place =>
      set place && decide (index = start + place)) = false := by
    rw [List.any_eq_false]
    intro place _ both
    rw [Bool.and_eq_true, decide_eq_true_iff] at both
    have below := place.isLt
    omega
  rw [pack, getLsbD_packSome, noPlace, Bool.and_false, Bool.or_false]

end Pack

theorem fill_apply (set value : Fin n → Bool) (places : List (Fin n)) (place : Fin n) :
    fill set value places place = if place ∈ places then value place else set place := by
  induction places generalizing set with
  | nil => simp [fill]
  | cons first rest inductionHypothesis =>
      have tail := inductionHypothesis (Function.update set first (value first))
      rw [fill] at tail ⊢
      rw [List.foldl_cons, tail]
      by_cases later : place ∈ rest
      · rw [if_pos later, if_pos (List.mem_cons_of_mem _ later)]
      · rw [if_neg later]
        by_cases isFirst : place = first
        · subst isFirst
          rw [if_pos List.mem_cons_self, Function.update_self]
        · rw [Function.update_of_ne isFirst, if_neg (by simp [isFirst, later])]

/-- Every bit is filled. -/
@[simp] theorem unpack_apply (word : BitVec w) (start : Nat) (set : Fin n → Bool)
    (place : Fin n) : unpack word start set place = word.getLsbD (start + place) := by
  rw [unpack, fill_apply, if_pos (List.mem_finRange place), shiftRight_and_one_pos]

/-- A number is small when its upper bits are not set. -/
theorem toNat_lt_two_pow_iff (word : BitVec w) (size : Nat) :
    word.toNat < 2 ^ size ↔ ∀ index, size ≤ index → word.getLsbD index = false := by
  constructor
  · intro small index above
    exact Nat.testBit_lt_two_pow (small.trans_le (Nat.pow_le_pow_right (by decide) above))
  · intro unset
    exact Nat.lt_pow_two_of_testBit _ unset

/-! ### There and back -/

/-- A word whose upper bits were unpacked is packed again onto its lower ones. -/
theorem pack_unpack (before : Fin n → Bool) {start : Nat} {word lower : BitVec w}
    (whole : start + n = w) (low : ∀ index < start, lower.getLsbD index = word.getLsbD index)
    (free : ∀ place : Fin n, lower.getLsbD (start + place) = false) :
    pack (unpack word start before) start lower = word := by
  apply BitVec.eq_of_getLsbD_eq
  intro index inside
  by_cases below : index < start
  · rw [getLsbD_pack_outside _ _ _ (.inl below), low index below]
  · have isPlace : index = start + (⟨index - start, by omega⟩ : Fin n) := by
      show index = start + (index - start)
      omega
    rw [isPlace, getLsbD_pack_inside _ _ _ _ (by rw [← isPlace]; exact inside), free,
      Bool.false_or, unpack_apply]

end Dift.Foundation.BitField
