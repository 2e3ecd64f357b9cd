import Mathlib.Data.UInt
import Dift.Foundation.Radix
import Dift.Foundation.Memory

/-!
Owns the step between host integers and network bytes: native loads and
stores of 16-, 32- and 64-bit words, `htons`/`htonl` with their standard
meaning, and the repository's `htonll`/`ntohll` macros. Everything takes the
host's byte order as a parameter. The storing laws say that a converted word
stands in memory most significant byte first on both kinds of host, the
loading laws that it is read back the same way.
-/

namespace Dift.Wire

open Dift.Foundation

/-- Byte-addressed memory. -/
abbrev Mem := Memory UInt8

/-! ### Native loads and stores -/

def store16 (host : ByteOrder) (memory : Mem) (pointer : Nat) (word : UInt16) : Mem :=
  memory.write pointer (Radix.bytes host 2 word.toNat)

def store32 (host : ByteOrder) (memory : Mem) (pointer : Nat) (word : UInt32) : Mem :=
  memory.write pointer (Radix.bytes host 4 word.toNat)

def store64 (host : ByteOrder) (memory : Mem) (pointer : Nat) (word : UInt64) : Mem :=
  memory.write pointer (Radix.bytes host 8 word.toNat)

def load16 (host : ByteOrder) (memory : Mem) (pointer : Nat) : UInt16 :=
  UInt16.ofNat (Radix.value host (memory.read pointer 2))

def load32 (host : ByteOrder) (memory : Mem) (pointer : Nat) : UInt32 :=
  UInt32.ofNat (Radix.value host (memory.read pointer 4))

def load64 (host : ByteOrder) (memory : Mem) (pointer : Nat) : UInt64 :=
  UInt64.ofNat (Radix.value host (memory.read pointer 8))

/-! ### Conversions -/

/-- The host word whose bytes in memory are the big-endian bytes of `word`. -/
def htons (host : ByteOrder) (word : UInt16) : UInt16 :=
  UInt16.ofNat (Radix.value host (Radix.bytes .big 2 word.toNat))

@[inherit_doc htons]
def htonl (host : ByteOrder) (word : UInt32) : UInt32 :=
  UInt32.ofNat (Radix.value host (Radix.bytes .big 4 word.toNat))

/-- The word whose big-endian bytes stand in memory as the host word. -/
def ntohs (host : ByteOrder) (word : UInt16) : UInt16 :=
  UInt16.ofNat (Radix.value .big (Radix.bytes host 2 word.toNat))

@[inherit_doc ntohs]
def ntohl (host : ByteOrder) (word : UInt32) : UInt32 :=
  UInt32.ofNat (Radix.value .big (Radix.bytes host 4 word.toNat))

/-- The `htonll` macro: a host is recognised as big-endian by `htonl(1)`. -/
def htonll (host : ByteOrder) (word : UInt64) : UInt64 :=
  if 1 = htonl host 1 then word
  else (htonl host (word &&& 0xFFFFFFFF).toUInt32).toUInt64 <<< 32 |||
    (htonl host (word >>> 32).toUInt32).toUInt64

/-- The `ntohll` macro. -/
def ntohll (host : ByteOrder) (word : UInt64) : UInt64 :=
  if 1 = ntohl host 1 then word
  else (ntohl host (word &&& 0xFFFFFFFF).toUInt32).toUInt64 <<< 32 |||
    (ntohl host (word >>> 32).toUInt32).toUInt64

/-! ### Words of 16 and 32 bits -/

theorem value_two_lt (order : ByteOrder) {stored : List UInt8} (two : stored.length = 2) :
    Radix.value order stored < 2 ^ 16 := by
  have bound := Radix.value_lt order stored
  rw [two] at bound
  omega

theorem value_four_lt (order : ByteOrder) {stored : List UInt8} (four : stored.length = 4) :
    Radix.value order stored < 2 ^ 32 := by
  have bound := Radix.value_lt order stored
  rw [four] at bound
  omega

/-- A word that is loaded holds the bytes it was loaded from. -/
theorem bytes_ofNat_two (order : ByteOrder) {stored : List UInt8} (two : stored.length = 2) :
    Radix.bytes order 2 (UInt16.ofNat (Radix.value order stored)).toNat = stored := by
  have restored := Radix.bytes_value order stored
  rw [two] at restored
  rw [UInt16.toNat_ofNat', Nat.mod_eq_of_lt (value_two_lt order two), restored]

theorem bytes_ofNat_four (order : ByteOrder) {stored : List UInt8} (four : stored.length = 4) :
    Radix.bytes order 4 (UInt32.ofNat (Radix.value order stored)).toNat = stored := by
  have restored := Radix.bytes_value order stored
  rw [four] at restored
  rw [UInt32.toNat_ofNat', Nat.mod_eq_of_lt (value_four_lt order four), restored]

/-- A word that is stored is loaded again. -/
theorem ofNat_bytes_two (order : ByteOrder) (word : UInt16) :
    UInt16.ofNat (Radix.value order (Radix.bytes order 2 word.toNat)) = word := by
  rw [Radix.value_bytes_of_lt _ word.toNat_lt, UInt16.ofNat_toNat]

theorem ofNat_bytes_four (order : ByteOrder) (word : UInt32) :
    UInt32.ofNat (Radix.value order (Radix.bytes order 4 word.toNat)) = word := by
  rw [Radix.value_bytes_of_lt _ word.toNat_lt, UInt32.ofNat_toNat]

theorem ofNat_bytes_eight (order : ByteOrder) (word : UInt64) :
    UInt64.ofNat (Radix.value order (Radix.bytes order 8 word.toNat)) = word := by
  rw [Radix.value_bytes_of_lt _ word.toNat_lt, UInt64.ofNat_toNat]

theorem bytes_htons (host : ByteOrder) (word : UInt16) :
    Radix.bytes host 2 (htons host word).toNat = Radix.bytes .big 2 word.toNat := by
  rw [htons]
  exact bytes_ofNat_two host (Radix.bytes_length .big 2 word.toNat)

theorem bytes_htonl (host : ByteOrder) (word : UInt32) :
    Radix.bytes host 4 (htonl host word).toNat = Radix.bytes .big 4 word.toNat := by
  rw [htonl]
  exact bytes_ofNat_four host (Radix.bytes_length .big 4 word.toNat)

theorem store16_htons (host : ByteOrder) (memory : Mem) (pointer : Nat) (word : UInt16) :
    store16 host memory pointer (htons host word) =
      memory.write pointer (Radix.bytes .big 2 word.toNat) := by
  rw [store16, bytes_htons]

theorem store32_htonl (host : ByteOrder) (memory : Mem) (pointer : Nat) (word : UInt32) :
    store32 host memory pointer (htonl host word) =
      memory.write pointer (Radix.bytes .big 4 word.toNat) := by
  rw [store32, bytes_htonl]

theorem ntohs_load16 (host : ByteOrder) (memory : Mem) (pointer : Nat) :
    ntohs host (load16 host memory pointer) =
      UInt16.ofNat (Radix.value .big (memory.read pointer 2)) := by
  rw [ntohs, load16, bytes_ofNat_two host (Memory.read_length memory pointer 2)]

theorem ntohl_load32 (host : ByteOrder) (memory : Mem) (pointer : Nat) :
    ntohl host (load32 host memory pointer) =
      UInt32.ofNat (Radix.value .big (memory.read pointer 4)) := by
  rw [ntohl, load32, bytes_ofNat_four host (Memory.read_length memory pointer 4)]

/-! ### The 64-bit macros -/

private theorem toNat_join_halves (high low : UInt32) :
    (high.toUInt64 <<< 32 ||| low.toUInt64).toNat = low.toNat + 256 ^ 4 * high.toNat := by
  have lowSmall : low.toNat < 2 ^ 32 := low.toNat_lt
  have highSmall : high.toNat < 2 ^ 32 := high.toNat_lt
  have shifted : (high.toUInt64 <<< 32).toNat = high.toNat <<< 32 := by
    rw [UInt64.toNat_shiftLeft, Nat.mod_eq_of_lt]
    · rfl
    · change high.toNat <<< 32 < 2 ^ 64
      rw [Nat.shiftLeft_eq]
      omega
  rw [UInt64.toNat_or, shifted, UInt32.toNat_toUInt64, ← Nat.shiftLeft_add_eq_or_of_lt lowSmall,
    Nat.shiftLeft_eq]
  omega

private theorem littleBytes_join (high low : Nat) (lowSmall : low < 256 ^ 4) :
    Radix.littleBytes 8 (low + 256 ^ 4 * high) =
      Radix.littleBytes 4 low ++ Radix.littleBytes 4 high := by
  have lowPart : (low + 256 ^ 4 * high) % 256 ^ 4 = low := by omega
  have highPart : (low + 256 ^ 4 * high) / 256 ^ 4 = high := by omega
  change Radix.littleBytes (4 + 4) _ = _
  rw [Radix.littleBytes_add, ← Radix.littleBytes_mod 4, lowPart, highPart]

private theorem littleBytes_split (number : Nat) :
    Radix.littleBytes 8 number =
      Radix.littleBytes 4 (number % 256 ^ 4) ++ Radix.littleBytes 4 (number / 256 ^ 4) := by
  have split : number % 256 ^ 4 + 256 ^ 4 * (number / 256 ^ 4) = number := by omega
  have joined := littleBytes_join (number / 256 ^ 4) (number % 256 ^ 4) (by omega)
  rwa [split] at joined

private theorem halves_of_word (word : UInt64) :
    (word &&& 0xFFFFFFFF).toUInt32.toNat = word.toNat % 256 ^ 4 ∧
      (word >>> 32).toUInt32.toNat = word.toNat / 256 ^ 4 := by
  have bound : word.toNat < 2 ^ 64 := word.toNat_lt
  constructor
  · rw [UInt64.toNat_toUInt32, UInt64.toNat_and]
    change (word.toNat &&& (2 ^ 32 - 1)) % 2 ^ 32 = _
    rw [Nat.and_two_pow_sub_one_eq_mod]
    omega
  · rw [UInt64.toNat_toUInt32, UInt64.toNat_shiftRight]
    change (word.toNat >>> 32) % 2 ^ 32 = _
    rw [Nat.shiftRight_eq_div_pow]
    omega

/-- Both branches of the macro leave the big-endian bytes in memory. -/
theorem store64_htonll (host : ByteOrder) (memory : Mem) (pointer : Nat) (word : UInt64) :
    store64 host memory pointer (htonll host word) =
      memory.write pointer (Radix.bytes .big 8 word.toNat) := by
  cases host with
  | big =>
      have recognised : 1 = htonl .big 1 := by decide
      rw [store64, htonll, if_pos recognised]
  | little =>
      have recognised : ¬ 1 = htonl .little 1 := by decide
      rcases halves_of_word word with ⟨low, high⟩
      have lowBytes := bytes_htonl .little (word &&& 0xFFFFFFFF).toUInt32
      have highBytes := bytes_htonl .little (word >>> 32).toUInt32
      rw [low] at lowBytes
      rw [high] at highBytes
      rw [store64, htonll, if_neg recognised, toNat_join_halves]
      congr 1
      change Radix.littleBytes 8 _ = (Radix.littleBytes 8 word.toNat).reverse
      rw [littleBytes_join _ _ (UInt32.toNat_lt _), littleBytes_split word.toNat,
        List.reverse_append]
      exact congrArg₂ (· ++ ·) highBytes lowBytes

/-- Both branches of the macro read the big-endian bytes in memory. -/
theorem ntohll_load64 (host : ByteOrder) (memory : Mem) (pointer : Nat) :
    ntohll host (load64 host memory pointer) =
      UInt64.ofNat (Radix.value .big (memory.read pointer 8)) := by
  cases host with
  | big =>
      have recognised : 1 = ntohl .big 1 := by decide
      rw [ntohll, if_pos recognised, load64]
  | little =>
      have recognised : ¬ 1 = ntohl .little 1 := by decide
      rcases halves_of_word (load64 .little memory pointer) with ⟨low, high⟩
      have eight : (memory.read pointer 8).length = 8 := by simp
      have small : Radix.littleValue (memory.read pointer 8) < 2 ^ 64 := by
        have bound := Radix.littleValue_lt (memory.read pointer 8)
        rw [eight] at bound
        omega
      have loaded : (load64 .little memory pointer).toNat =
          Radix.littleValue (memory.read pointer 8) := by
        rw [load64, UInt64.toNat_ofNat']
        exact Nat.mod_eq_of_lt small
      have stored := Radix.littleBytes_littleValue (memory.read pointer 8)
      rw [eight, ← loaded, littleBytes_split, ← low, ← high] at stored
      have swapped (half : UInt32) : (ntohl .little half).toNat =
          Radix.littleValue (Radix.littleBytes 4 half.toNat).reverse := by
        rw [ntohl, UInt32.toNat_ofNat']
        exact Nat.mod_eq_of_lt (value_four_lt .big (Radix.bytes_length .little 4 _))
      apply UInt64.toNat_inj.mp
      rw [ntohll, if_neg recognised, toNat_join_halves, swapped, swapped, UInt64.toNat_ofNat']
      change _ = Radix.littleValue (memory.read pointer 8).reverse % 2 ^ 64
      have bound := Radix.littleValue_lt (memory.read pointer 8).reverse
      rw [List.length_reverse, eight] at bound
      rw [Nat.mod_eq_of_lt (by omega), ← stored, List.reverse_append, Radix.littleValue_append,
        List.length_reverse, Radix.littleBytes_length]

/-! ### Words that stand in network order -/

/-- Words parsed from memory are written as the bytes that stand there. -/
theorem bytes_ntohs (host : ByteOrder) (memory : Mem) (pointer : Nat) :
    Radix.bytes .big 2 (ntohs host (load16 host memory pointer)).toNat = memory.read pointer 2 := by
  rw [ntohs_load16]
  exact bytes_ofNat_two .big (Memory.read_length memory pointer 2)

theorem bytes_ntohl (host : ByteOrder) (memory : Mem) (pointer : Nat) :
    Radix.bytes .big 4 (ntohl host (load32 host memory pointer)).toNat = memory.read pointer 4 := by
  rw [ntohl_load32]
  exact bytes_ofNat_four .big (Memory.read_length memory pointer 4)

theorem bytes_ntohll (host : ByteOrder) (memory : Mem) (pointer : Nat) :
    Radix.bytes .big 8 (ntohll host (load64 host memory pointer)).toNat =
      memory.read pointer 8 := by
  have small := Radix.value_lt .big (memory.read pointer 8)
  rw [Memory.read_length] at small
  rw [ntohll_load64, UInt64.toNat_ofNat', Nat.mod_eq_of_lt (by omega)]
  simpa using Radix.bytes_value .big (memory.read pointer 8)

/-- Words that stand in network order are parsed as they are. -/
theorem ntohs_eq {host : ByteOrder} {memory : Mem} {pointer : Nat} {word : UInt16}
    (held : memory.read pointer 2 = Radix.bytes .big 2 word.toNat) :
    ntohs host (load16 host memory pointer) = word := by
  rw [ntohs_load16, held, ofNat_bytes_two]

theorem ntohl_eq {host : ByteOrder} {memory : Mem} {pointer : Nat} {word : UInt32}
    (held : memory.read pointer 4 = Radix.bytes .big 4 word.toNat) :
    ntohl host (load32 host memory pointer) = word := by
  rw [ntohl_load32, held, ofNat_bytes_four]

theorem ntohll_eq {host : ByteOrder} {memory : Mem} {pointer : Nat} {word : UInt64}
    (held : memory.read pointer 8 = Radix.bytes .big 8 word.toNat) :
    ntohll host (load64 host memory pointer) = word := by
  rw [ntohll_load64, held, ofNat_bytes_eight]

end Dift.Wire
