import Mathlib.Tactic

/-!
Owns the reading of numerals. The value of a numeral in a base up to sixteen is
that of its digits, and characters that are no digits, such as the blanks or
zeros a numeral is padded with, do not count in front of it. So a padded numeral
determines its number.
-/

namespace Dift.Foundation.Numerals

/-- The value of a digit; other characters have none. -/
def digitValue (c : Char) : Nat :=
  if c.isDigit then c.toNat - 48 else if 'a' ≤ c ∧ c ≤ 'f' then c.toNat - 87 else 0

/-- The value of a numeral. -/
def value (base : Nat) (numeral : List Char) : Nat :=
  numeral.foldl (fun number c => base * number + digitValue c) 0

theorem value_append_singleton (base : Nat) (numeral : List Char) (c : Char) :
    value base (numeral ++ [c]) = base * value base numeral + digitValue c := by
  simp [value]

theorem digitValue_digitChar {digit : Nat} (small : digit < 16) :
    digitValue digit.digitChar = digit := by
  revert digit
  decide

/-- A numeral of a number has its value. -/
theorem value_toDigits {base : Nat} (least : 1 < base) (most : base ≤ 16) (number : Nat) :
    value base (Nat.toDigits base number) = number := by
  induction number using Nat.strong_induction_on with
  | _ number inductionHypothesis =>
      have last : number % base < base := Nat.mod_lt _ (by omega)
      rw [Nat.toDigits_eq_if least]
      split_ifs with small
      · rw [← List.nil_append [number.digitChar], value_append_singleton,
          digitValue_digitChar (by omega)]
        simp [value]
      · rw [value_append_singleton, inductionHypothesis _ (Nat.div_lt_self (by omega) least),
          digitValue_digitChar (by omega), Nat.div_add_mod]

/-- The characters of a numeral are digits of its base. -/
theorem exists_digitChar_of_mem {base number : Nat} {c : Char} (least : 1 < base)
    (member : c ∈ Nat.toDigits base number) : ∃ digit < base, c = digit.digitChar := by
  induction number using Nat.strong_induction_on with
  | _ number inductionHypothesis =>
      rw [Nat.toDigits_eq_if least] at member
      split_ifs at member with small
      · exact ⟨number, small, List.mem_singleton.mp member⟩
      · rcases List.mem_append.mp member with front | last
        · exact inductionHypothesis _ (Nat.div_lt_self (by omega) least) front
        · exact ⟨number % base, Nat.mod_lt _ (by omega), List.mem_singleton.mp last⟩

/-- Characters without a value do not count in front of a numeral. -/
theorem value_append_of_zero (base : Nat) {pad : List Char} (numeral : List Char)
    (blank : ∀ c ∈ pad, digitValue c = 0) : value base (pad ++ numeral) = value base numeral := by
  have zero : value base pad = 0 := by
    induction pad using List.reverseRecOn with
    | nil => rfl
    | append_singleton front c inductionHypothesis =>
        rw [value_append_singleton, blank c (by simp),
          inductionHypothesis fun other member => blank other (by simp [member])]
        rfl
  rw [value, List.foldl_append]
  exact congrArg (fun number => numeral.foldl _ number) zero

end Dift.Foundation.Numerals
