import Mathlib.Tactic

/-!
Owns fixed-width radix-256 encodings of natural numbers in both byte orders:
the bytes of a value, the value of some bytes, the two round trips, and the
splitting law that relates a wide value to its two halves. It owns no width
and no field layout.
-/

namespace Dift.Foundation

/-- The two orders in which the bytes of a word can stand in memory. -/
inductive ByteOrder where
  | little
  | big
deriving DecidableEq, Repr

/-- The other byte order. -/
def ByteOrder.opposite : ByteOrder → ByteOrder
  | .little => .big
  | .big => .little

@[simp] theorem ByteOrder.opposite_opposite (order : ByteOrder) :
    order.opposite.opposite = order := by
  cases order <;> rfl

namespace Radix

/-- The `width` bytes of `value`, least significant first; higher digits are
dropped. -/
def littleBytes : Nat → Nat → List UInt8
  | 0, _ => []
  | width + 1, value => UInt8.ofNat value :: littleBytes width (value / 256)

/-- The number whose bytes, least significant first, are given. -/
def littleValue : List UInt8 → Nat
  | [] => 0
  | byte :: rest => byte.toNat + 256 * littleValue rest

/-- The `width` bytes of `value` in the given order. -/
def bytes (order : ByteOrder) (width value : Nat) : List UInt8 :=
  match order with
  | .little => littleBytes width value
  | .big => (littleBytes width value).reverse

/-- The number stored by the given bytes in the given order. -/
def value (order : ByteOrder) (stored : List UInt8) : Nat :=
  match order with
  | .little => littleValue stored
  | .big => littleValue stored.reverse

theorem littleBytes_length (width value : Nat) : (littleBytes width value).length = width := by
  induction width generalizing value with
  | zero => rfl
  | succ width inductionHypothesis => simp [littleBytes, inductionHypothesis]

@[simp] theorem bytes_length (order : ByteOrder) (width value : Nat) :
    (bytes order width value).length = width := by
  cases order <;> simp [bytes, littleBytes_length]

theorem littleValue_littleBytes (width value : Nat) :
    littleValue (littleBytes width value) = value % 256 ^ width := by
  induction width generalizing value with
  | zero => simp [littleBytes, littleValue, Nat.mod_one]
  | succ width inductionHypothesis =>
      have lowDigit : (UInt8.ofNat value).toNat = value % 256 := by simp
      rw [littleBytes, littleValue, inductionHypothesis, lowDigit, pow_succ', Nat.mod_mul]

theorem littleBytes_littleValue (stored : List UInt8) :
    littleBytes stored.length (littleValue stored) = stored := by
  induction stored with
  | nil => rfl
  | cons byte rest inductionHypothesis =>
      have byteLt : byte.toNat < 256 := byte.toNat_lt
      have lowDigit : UInt8.ofNat (byte.toNat + 256 * littleValue rest) = byte := by
        apply UInt8.toNat_inj.mp
        simp
      have highDigits : (byte.toNat + 256 * littleValue rest) / 256 = littleValue rest := by
        omega
      rw [List.length_cons, littleValue, littleBytes, lowDigit, highDigits, inductionHypothesis]

theorem littleValue_lt (stored : List UInt8) : littleValue stored < 256 ^ stored.length := by
  induction stored with
  | nil => simp [littleValue]
  | cons byte rest inductionHypothesis =>
      have byteLt : byte.toNat < 256 := byte.toNat_lt
      rw [littleValue, List.length_cons, pow_succ]
      omega

theorem littleValue_append (low high : List UInt8) :
    littleValue (low ++ high) = littleValue low + 256 ^ low.length * littleValue high := by
  induction low with
  | nil => simp [littleValue]
  | cons byte rest inductionHypothesis =>
      rw [List.cons_append, littleValue, inductionHypothesis, littleValue, List.length_cons,
        pow_succ]
      ring

/-- Storing a value and reading it back drops the digits that do not fit. -/
theorem value_bytes (order : ByteOrder) (width number : Nat) :
    value order (bytes order width number) = number % 256 ^ width := by
  cases order <;> simp [value, bytes, littleValue_littleBytes]

theorem value_bytes_of_lt (order : ByteOrder) {width number : Nat}
    (small : number < 256 ^ width) : value order (bytes order width number) = number := by
  rw [value_bytes, Nat.mod_eq_of_lt small]

/-- Reading some bytes and storing the value again restores them. -/
theorem bytes_value (order : ByteOrder) (stored : List UInt8) :
    bytes order stored.length (value order stored) = stored := by
  cases order with
  | little => exact littleBytes_littleValue stored
  | big =>
      have reversed := littleBytes_littleValue stored.reverse
      rw [List.length_reverse] at reversed
      simp [bytes, value, reversed]

theorem value_lt (order : ByteOrder) (stored : List UInt8) :
    value order stored < 256 ^ stored.length := by
  cases order with
  | little => exact littleValue_lt stored
  | big =>
      have reversed := littleValue_lt stored.reverse
      rwa [List.length_reverse] at reversed

theorem bytes_opposite (order : ByteOrder) (width number : Nat) :
    bytes order.opposite width number = (bytes order width number).reverse := by
  cases order <;> simp [bytes, ByteOrder.opposite]

/-- The bytes of a number split at any digit into the bytes of its low and
high part. -/
theorem littleBytes_add (low high number : Nat) :
    littleBytes (low + high) number =
      littleBytes low number ++ littleBytes high (number / 256 ^ low) := by
  induction low generalizing number with
  | zero => simp [littleBytes]
  | succ low inductionHypothesis =>
      rw [Nat.succ_add, littleBytes, inductionHypothesis, littleBytes, Nat.div_div_eq_div_mul,
        ← pow_succ', List.cons_append]

/-- Only the digits that fit matter. -/
theorem littleBytes_mod (width number : Nat) :
    littleBytes width (number % 256 ^ width) = littleBytes width number := by
  have restored := littleBytes_littleValue (littleBytes width number)
  rwa [littleBytes_length, littleValue_littleBytes] at restored

end Radix

end Dift.Foundation
