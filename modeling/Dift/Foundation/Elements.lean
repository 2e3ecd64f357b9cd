import Dift.Foundation.Radix

/-!
Owns arrays of fixed-width elements: their bytes in either order, and the
reversal of every element in place. Reversing the elements of an array is
writing it in the opposite order; reversing only the first of them is that up
to the elements that read the same both ways.
-/

namespace Dift.Foundation.Radix

/-- The bytes of an array of `width`-byte elements. -/
def encode (order : ByteOrder) (width : Nat) (elements : List Nat) : List UInt8 :=
  elements.flatMap (bytes order width)

/-- Reverse the bytes of each of the first `count` elements, and drop the
rest. -/
def reverseEach (width : Nat) : Nat → List UInt8 → List UInt8
  | 0, _ => []
  | count + 1, stored =>
      (stored.take width).reverse ++ reverseEach width count (stored.drop width)

@[simp] theorem encode_nil (order : ByteOrder) (width : Nat) : encode order width [] = [] := rfl

theorem encode_cons (order : ByteOrder) (width element : Nat) (rest : List Nat) :
    encode order width (element :: rest) =
      bytes order width element ++ encode order width rest := rfl

theorem encode_append (order : ByteOrder) (width : Nat) (first second : List Nat) :
    encode order width (first ++ second) =
      encode order width first ++ encode order width second := by
  simp [encode]

@[simp] theorem encode_length (order : ByteOrder) (width : Nat) (elements : List Nat) :
    (encode order width elements).length = width * elements.length := by
  induction elements with
  | nil => simp
  | cons element rest inductionHypothesis =>
      rw [encode_cons, List.length_append, bytes_length, inductionHypothesis, List.length_cons]
      ring

/-- Bytes of whole elements are an array of them. -/
theorem exists_encode (order : ByteOrder) (width count : Nat) {stored : List UInt8}
    (size : stored.length = width * count) :
    ∃ elements, elements.length = count ∧ stored = encode order width elements := by
  induction count generalizing stored with
  | zero => exact ⟨[], rfl, List.length_eq_zero_iff.mp size⟩
  | succ count inductionHypothesis =>
      rw [Nat.mul_succ] at size
      have first : (stored.take width).length = width := by
        rw [List.length_take]
        omega
      have restored := bytes_value order (stored.take width)
      rw [first] at restored
      rcases @inductionHypothesis (stored.drop width) (by rw [List.length_drop]; omega) with
        ⟨rest, counted, isRest⟩
      refine ⟨value order (stored.take width) :: rest, congrArg (· + 1) counted, ?_⟩
      rw [encode_cons, restored, ← isRest, List.take_append_drop]

/-- Reversing every element of an array changes its byte order. -/
theorem reverseEach_encode (order : ByteOrder) (width : Nat) (elements : List Nat) :
    reverseEach width elements.length (encode order width elements) =
      encode order.opposite width elements := by
  induction elements with
  | nil => rfl
  | cons element rest inductionHypothesis =>
      have size : (bytes order width element).length = width := bytes_length _ _ _
      rw [List.length_cons, encode_cons, reverseEach, List.take_left' size, List.drop_left' size,
        inductionHypothesis, encode_cons, bytes_opposite]

theorem reverseEach_length {width count : Nat} {stored : List UInt8}
    (inside : width * count ≤ stored.length) :
    (reverseEach width count stored).length = width * count := by
  induction count generalizing stored with
  | zero => rfl
  | succ count inductionHypothesis =>
      rw [Nat.mul_succ] at inside
      rw [reverseEach, List.length_append, inductionHypothesis (by rw [List.length_drop]; omega),
        List.length_reverse, List.length_take_of_le (by omega), Nat.mul_succ, Nat.add_comm]

/-- Only the elements that are reversed matter. -/
theorem reverseEach_take {width count total : Nat} (stored : List UInt8)
    (inside : width * count ≤ total) :
    reverseEach width count (stored.take total) = reverseEach width count stored := by
  induction count generalizing stored total with
  | zero => rfl
  | succ count inductionHypothesis =>
      rw [Nat.mul_succ] at inside
      rw [reverseEach, List.take_take, Nat.min_eq_left (by omega), List.drop_take,
        inductionHypothesis _ (by omega), reverseEach]

/-- Reversing single bytes copies them. -/
theorem reverseEach_one (count : Nat) (stored : List UInt8) :
    reverseEach 1 count stored = stored.take count := by
  induction count generalizing stored with
  | zero => rfl
  | succ count inductionHypothesis =>
      rw [reverseEach, inductionHypothesis]
      cases stored <;> simp

/-- Reversing every element twice restores the array. -/
theorem reverseEach_reverseEach {width count : Nat} {stored : List UInt8}
    (size : stored.length = width * count) :
    reverseEach width count (reverseEach width count stored) = stored := by
  induction count generalizing stored with
  | zero => exact (List.length_eq_zero_iff.mp size).symm
  | succ count inductionHypothesis =>
      rw [Nat.mul_succ] at size
      have first : (stored.take width).reverse.length = width := by
        rw [List.length_reverse, List.length_take_of_le (by omega)]
      have rest : (stored.drop width).length = width * count := by
        rw [List.length_drop]
        omega
      rw [reverseEach, reverseEach, List.take_left' first, List.drop_left' first,
        List.reverse_reverse, inductionHypothesis rest, List.take_append_drop]

/-- Concatenations that are cut at the same place agree part by part. -/
theorem append_eq_append_iff_of_length {α : Type*} {first other second rest : List α}
    (sizes : first.length = other.length) :
    first ++ second = other ++ rest ↔ first = other ∧ second = rest := by
  constructor
  · exact fun same => List.append_inj same sizes
  · intro both
    obtain ⟨rfl, rfl⟩ := both
    rfl

/-- Two arrays of the same elements in different orders agree exactly when
every element reads the same both ways. -/
theorem encode_opposite_eq_iff (order : ByteOrder) (width : Nat) (elements : List Nat) :
    encode order width elements = encode order.opposite width elements ↔
      ∀ element ∈ elements, bytes order width element = bytes order.opposite width element := by
  induction elements with
  | nil => simp
  | cons element rest inductionHypothesis =>
      rw [encode_cons, encode_cons, append_eq_append_iff_of_length (by simp),
        inductionHypothesis, List.forall_mem_cons]

end Dift.Foundation.Radix
