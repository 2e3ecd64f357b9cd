import Dift.Foundation.Loop
import Dift.Wire.Codecs

/-!
Owns the conversion between bytes and 32-bit words of `Util`: `toInt`,
`toBytes` and the loop of `toIntArray`, in both byte orders. The bytes are
`char`s and signed. The bound of the loop is an unsigned difference, so that it
is right exactly for arrays of at least three bytes.
-/

namespace Dift.Evio

open Dift.Foundation
open Dift.Wire

/-! ### One word -/

/-- The form of `toInt` that takes four `char`s. -/
def toInt (b1 b2 b3 b4 : UInt8) (byteOrder : ByteOrder) : UInt32 :=
  let masked (byte : UInt8) : Int32 := 0xff &&& charToInt byte
  match byteOrder with
  | .big => (masked b1 <<< 24 ||| masked b2 <<< 16 ||| masked b3 <<< 8 ||| masked b4).toUInt32
  | .little => (masked b1 ||| masked b2 <<< 8 ||| masked b3 <<< 16 ||| masked b4 <<< 24).toUInt32

/-- The form of `toBytes` for a word of 32 bits; the error is that of the
exception. -/
def toBytes (data : UInt32) (byteOrder : ByteOrder) (memory : Mem) (dest : Option Nat) :
    Except String Mem :=
  match dest with
  | none => .error "bad arg(s)"
  | some dest =>
      .ok <| memory.write dest <|
        match byteOrder with
        | .big =>
            [(data >>> 24).toUInt8, (data >>> 16).toUInt8, (data >>> 8).toUInt8, data.toUInt8]
        | .little =>
            [data.toUInt8, (data >>> 8).toUInt8, (data >>> 16).toUInt8, (data >>> 24).toUInt8]

private theorem toUInt32_mask (byte : UInt8) :
    ((0xff : Int32) &&& charToInt byte).toUInt32 = byte.toUInt32 := by
  rw [Int32.and_comm, toUInt32_charToInt_mask]

/-- Four bytes that do not overlap are put together, the least significant one
first. -/
private theorem join_bytes (first second third fourth : UInt8) :
    first.toUInt32 ||| second.toUInt32 <<< 8 ||| third.toUInt32 <<< 16 |||
        fourth.toUInt32 <<< 24 =
      UInt32.ofNat (Radix.littleValue [first, second, third, fourth]) := by
  have firstSmall : first.toNat < 2 ^ 8 := first.toNat_lt
  have secondSmall : second.toNat < 2 ^ 8 := second.toNat_lt
  have thirdSmall : third.toNat < 2 ^ 8 := third.toNat_lt
  have fourthSmall : fourth.toNat < 2 ^ 8 := fourth.toNat_lt
  have shifted (byte : UInt8) (step : UInt32) (places : Nat) (isStep : step.toNat % 32 = places)
      (small : byte.toNat * 2 ^ places < 2 ^ 32) :
      (byte.toUInt32 <<< step).toNat = byte.toNat * 2 ^ places := by
    rw [UInt32.toNat_shiftLeft, isStep, Nat.shiftLeft_eq, UInt8.toNat_toUInt32]
    exact Nat.mod_eq_of_lt small
  have join (low high places : Nat) (small : low < 2 ^ places) :
      low ||| high * 2 ^ places = low + high * 2 ^ places := by
    rw [Nat.or_comm, ← Nat.shiftLeft_eq, ← Nat.shiftLeft_add_eq_or_of_lt small, Nat.add_comm]
  apply UInt32.toNat_inj.mp
  rw [UInt32.toNat_or, UInt32.toNat_or, UInt32.toNat_or, shifted second 8 8 rfl (by omega),
    shifted third 16 16 rfl (by omega), shifted fourth 24 24 rfl (by omega),
    UInt8.toNat_toUInt32, join _ _ 8 firstSmall, join _ _ 16 (by omega), join _ _ 24 (by omega),
    UInt32.toNat_ofNat']
  simp only [Radix.littleValue]
  omega

theorem toInt_eq (b1 b2 b3 b4 : UInt8) (byteOrder : ByteOrder) :
    toInt b1 b2 b3 b4 byteOrder = UInt32.ofNat (Radix.value byteOrder [b1, b2, b3, b4]) := by
  cases byteOrder with
  | little =>
      change _ = UInt32.ofNat (Radix.littleValue [b1, b2, b3, b4])
      rw [← join_bytes b1 b2 b3 b4]
      simp only [← toUInt32_mask]
      rfl
  | big =>
      change _ = UInt32.ofNat (Radix.littleValue [b4, b3, b2, b1])
      rw [← join_bytes b4 b3 b2 b1, UInt32.or_comm _ (b1.toUInt32 <<< 24),
        UInt32.or_comm _ (b2.toUInt32 <<< 16), UInt32.or_comm b4.toUInt32, ← UInt32.or_assoc,
        ← UInt32.or_assoc]
      simp only [← toUInt32_mask]
      rfl

theorem toBytes_eq (data : UInt32) (byteOrder : ByteOrder) (memory : Mem) (dest : Nat) :
    toBytes data byteOrder memory (some dest) =
      .ok (memory.write dest (Radix.bytes byteOrder 4 data.toNat)) := by
  have digit (step : UInt32) (places : Nat) (isStep : step.toNat % 32 = places) :
      (data >>> step).toUInt8 = UInt8.ofNat (data.toNat / 2 ^ places) := by
    apply UInt8.toNat_inj.mp
    rw [UInt32.toNat_toUInt8, UInt32.toNat_shiftRight, isStep, Nat.shiftRight_eq_div_pow,
      UInt8.toNat_ofNat']
  have lowest : data.toUInt8 = UInt8.ofNat data.toNat := by
    apply UInt8.toNat_inj.mp
    rw [UInt32.toNat_toUInt8, UInt8.toNat_ofNat']
  have digits : Radix.littleBytes 4 data.toNat =
      [data.toUInt8, (data >>> 8).toUInt8, (data >>> 16).toUInt8, (data >>> 24).toUInt8] := by
    rw [digit 8 8 rfl, digit 16 16 rfl, digit 24 24 rfl, lowest]
    simp [Radix.littleBytes, Nat.div_div_eq_div_mul]
  cases byteOrder with
  | little => rw [Radix.bytes, digits, toBytes]
  | big =>
      rw [Radix.bytes, digits, toBytes]
      rfl

/-! ### An array of words -/

/-- The variable of the loop, the array it fills, and the addresses it has read and
written so far. -/
structure Conversion where
  i : Nat
  words : Memory UInt32
  reads : List Nat
  writes : List Nat

/-- The body of the loop. The variable is an `int` that is compared as an unsigned
number; there is no result when it overflows. -/
def toIntArrayRound (memory : Mem) (data : Nat) (dataLen : UInt32) (byteOrder : ByteOrder)
    (dest : Nat) (state : Conversion) : Round Conversion (Option Conversion) :=
  let i := state.i
  if i < (dataLen - 3).toNat then
    let word := toInt (memory (data + i)) (memory (data + (i + 1))) (memory (data + (i + 2)))
      (memory (data + (i + 3))) byteOrder
    let next : Conversion := {
      i := i + 4
      words := state.words.write (dest + i / 4) [word]
      reads := state.reads ++ [data + i, data + (i + 1), data + (i + 2), data + (i + 3)]
      writes := state.writes ++ [dest + i / 4] }
    if next.i < 2 ^ 31 then .again next else .leave none
  else .leave (some state)

/-- There is no result when the fuel does not suffice; the error is that of the
exception. -/
def toIntArray (fuel : Nat) (memory : Mem) (data : Option Nat) (dataLen : UInt32)
    (byteOrder : ByteOrder) (words : Memory UInt32) (dest : Option Nat) :
    Option (Except String (Option Conversion)) :=
  match data, dest with
  | some data, some dest =>
      (iterate (toIntArrayRound memory data dataLen byteOrder dest) fuel
        { i := 0, words := words, reads := [], writes := [] }).map .ok
  | _, _ => some (.error "bad arg")

section

variable (memory : Mem) (data : Nat) (byteOrder : ByteOrder) (words : Memory UInt32) (dest : Nat)

/-- The word of four bytes. -/
def wordAt (index : Nat) : UInt32 :=
  UInt32.ofNat (Radix.value byteOrder (memory.read (data + 4 * index) 4))

/-- What the loop has done after some rounds. -/
def converted (count : Nat) : Conversion where
  i := 4 * count
  words := words.write dest ((List.range count).map (wordAt memory data byteOrder))
  reads := List.range' data (4 * count)
  writes := List.range' dest count

theorem toInt_wordAt (count : Nat) :
    toInt (memory (data + 4 * count)) (memory (data + (4 * count + 1)))
      (memory (data + (4 * count + 2))) (memory (data + (4 * count + 3))) byteOrder =
      wordAt memory data byteOrder count := by
  rw [toInt_eq]
  rfl

variable {dataLen : UInt32}

theorem round_again (below : dataLen.toNat < 2 ^ 31) (atLeast : 3 ≤ dataLen.toNat) {count : Nat}
    (more : count < dataLen.toNat / 4) :
    toIntArrayRound memory data dataLen byteOrder dest
        (converted memory data byteOrder words dest count) =
      .again (converted memory data byteOrder words dest (count + 1)) := by
  have bound : (dataLen - 3).toNat = dataLen.toNat - 3 :=
    UInt32.toNat_sub_of_le _ _ (UInt32.le_iff_toNat_le.mpr atLeast)
  have inside : 4 * count < (dataLen - 3).toNat := by omega
  have fits : 4 * count + 4 < 2 ^ 31 := by omega
  have quotient : 4 * count / 4 = count := by omega
  have moreWords : (words.write dest ((List.range count).map (wordAt memory data byteOrder))).write
      (dest + count) [wordAt memory data byteOrder count] =
      words.write dest ((List.range (count + 1)).map (wordAt memory data byteOrder)) := by
    have appended := Memory.write_append words dest
      ((List.range count).map (wordAt memory data byteOrder)) [wordAt memory data byteOrder count]
    rw [List.length_map, List.length_range] at appended
    rw [appended, List.range_succ, List.map_append]
    rfl
  have moreReads : List.range' data (4 * count) ++ [data + 4 * count, data + (4 * count + 1),
      data + (4 * count + 2), data + (4 * count + 3)] = List.range' data (4 * (count + 1)) := by
    rw [Nat.mul_succ, ← List.range'_append_1]
    rfl
  have moreWrites : List.range' dest count ++ [dest + count] = List.range' dest (count + 1) :=
    List.range'_1_concat.symm
  simp only [toIntArrayRound, converted, inside, fits, if_true, toInt_wordAt, quotient, moreWords,
    moreReads, moreWrites]
  rfl

theorem round_leave (atLeast : 3 ≤ dataLen.toNat) :
    toIntArrayRound memory data dataLen byteOrder dest
        (converted memory data byteOrder words dest (dataLen.toNat / 4)) =
      .leave (some (converted memory data byteOrder words dest (dataLen.toNat / 4))) := by
  have bound : (dataLen - 3).toNat = dataLen.toNat - 3 :=
    UInt32.toNat_sub_of_le _ _ (UInt32.le_iff_toNat_le.mpr atLeast)
  apply if_neg
  rw [bound]
  change ¬ 4 * (dataLen.toNat / 4) < dataLen.toNat - 3
  omega

theorem returns_converted (below : dataLen.toNat < 2 ^ 31) (atLeast : 3 ≤ dataLen.toNat) :
    Returns (toIntArrayRound memory data dataLen byteOrder dest)
      { i := 0, words := words, reads := [], writes := [] }
      (some (converted memory data byteOrder words dest (dataLen.toNat / 4))) := by
  have fromRound (left : Nat) : left ≤ dataLen.toNat / 4 →
      Returns (toIntArrayRound memory data dataLen byteOrder dest)
        (converted memory data byteOrder words dest (dataLen.toNat / 4 - left))
        (some (converted memory data byteOrder words dest (dataLen.toNat / 4))) := by
    induction left with
    | zero =>
        intro _
        exact .of_leave (round_leave memory data byteOrder words dest atLeast)
    | succ left inductionHypothesis =>
        intro le
        have more : dataLen.toNat / 4 - (left + 1) < dataLen.toNat / 4 := by omega
        have step := round_again memory data byteOrder words dest below atLeast more
        rw [show dataLen.toNat / 4 - (left + 1) + 1 = dataLen.toNat / 4 - left by omega] at step
        exact (returns_iff_of_again step).mpr (inductionHypothesis (by omega))
  have start := fromRound (dataLen.toNat / 4) le_rfl
  rw [Nat.sub_self] at start
  simpa [converted] using start

/-- With fewer than three bytes the bound wraps around and the variable overflows. -/
theorem leaves_none (short : dataLen.toNat < 3) {result : Option Conversion}
    (returns : Returns (toIntArrayRound memory data dataLen byteOrder dest)
      { i := 0, words := words, reads := [], writes := [] } result) : result = none := by
  have bound : 2 ^ 31 ≤ (dataLen - 3).toNat := by
    rw [UInt32.toNat_sub]
    change 2 ^ 31 ≤ (2 ^ 32 - 3 + dataLen.toNat) % 2 ^ 32
    omega
  have round (state : Conversion) (small : state.i < 2 ^ 31) :
      ∃ next : Conversion, toIntArrayRound memory data dataLen byteOrder dest state =
        if next.i < 2 ^ 31 then .again next else .leave none :=
    ⟨_, if_pos (show state.i < (dataLen - 3).toNat by omega)⟩
  apply Returns.invariant (fun state => state.i < 2 ^ 31) (fun value => value = none) _ _
    (show 0 < 2 ^ 31 by decide) returns
  · intro before after small step
    obtain ⟨next, isRound⟩ := round before small
    rw [isRound] at step
    split_ifs at step with fits
    cases step
    exact fits
  · intro before value small step
    obtain ⟨next, isRound⟩ := round before small
    rw [isRound] at step
    split_ifs at step
    cases step
    rfl

/-! ### What the conversion does -/

/-- The conversion returns. It reads nothing behind the bytes, writes as many words
as there are whole ones, in their order, and leaves the others alone, and from
every word written `toBytes` gives its four bytes back. -/
def Converts (dataLen : UInt32) : Prop :=
  ∃ fuel result, toIntArray fuel memory (some data) dataLen byteOrder words (some dest) =
      some (.ok (some result)) ∧
    (∀ address ∈ result.reads, data ≤ address ∧ address < data + dataLen.toNat) ∧
    result.writes = List.range' dest (dataLen.toNat / 4) ∧
    (∀ address, address < dest ∨ dest + dataLen.toNat / 4 ≤ address →
      result.words address = words address) ∧
    ∀ index < dataLen.toNat / 4, ∀ (other : Mem) (pointer : Nat),
      toBytes (result.words (dest + index)) byteOrder other (some pointer) =
        .ok (other.write pointer (memory.read (data + 4 * index) 4))

theorem bytes_wordAt (index : Nat) :
    Radix.bytes byteOrder 4 (wordAt memory data byteOrder index).toNat =
      memory.read (data + 4 * index) 4 := by
  rw [wordAt]
  exact bytes_ofNat_four byteOrder (Memory.read_length memory (data + 4 * index) 4)

theorem converted_words (count : Nat) {index : Nat} (below : index < count) :
    (converted memory data byteOrder words dest count).words (dest + index) =
      wordAt memory data byteOrder index := by
  have inside : index < ((List.range count).map (wordAt memory data byteOrder)).length := by
    simpa using below
  have written := words.write_inside dest _ inside
  simpa [converted] using written

theorem toIntArray_converted (below : dataLen.toNat < 2 ^ 31) (atLeast : 3 ≤ dataLen.toNat) :
    ∃ fuel, ∀ more, fuel ≤ more →
      toIntArray more memory (some data) dataLen byteOrder words (some dest) =
        some (.ok (some (converted memory data byteOrder words dest (dataLen.toNat / 4)))) := by
  obtain ⟨fuel, done⟩ := returns_converted memory data byteOrder words dest below atLeast
  refine ⟨fuel, ?_⟩
  intro more le
  rw [toIntArray, iterate_mono le done]
  rfl

theorem not_toIntArray_some (short : dataLen.toNat < 3) (fuel : Nat) (result : Conversion) :
    toIntArray fuel memory (some data) dataLen byteOrder words (some dest) ≠
      some (.ok (some result)) := by
  intro done
  rw [toIntArray, Option.map_eq_some_iff] at done
  obtain ⟨value, returned, isValue⟩ := done
  have noValue := leaves_none memory data byteOrder words dest short ⟨fuel, returned⟩
  rw [noValue] at isValue
  cases isValue

theorem converts_iff (below : dataLen.toNat < 2 ^ 31) :
    Converts memory data byteOrder words dest dataLen ↔ 3 ≤ dataLen.toNat := by
  constructor
  · intro converts
    obtain ⟨fuel, result, done, -⟩ := converts
    by_contra short
    exact not_toIntArray_some memory data byteOrder words dest (not_le.mp short) fuel result done
  · intro atLeast
    obtain ⟨fuel, done⟩ := toIntArray_converted memory data byteOrder words dest below atLeast
    refine ⟨fuel, _, done fuel le_rfl, ?_, rfl, ?_, ?_⟩
    · intro address isRead
      obtain ⟨index, small, isIndex⟩ := List.mem_range'.mp isRead
      omega
    · intro address outside
      apply Memory.write_outside
      simpa using outside
    · intro index small other pointer
      rw [converted_words _ _ _ _ _ _ small, toBytes_eq, bytes_wordAt]

end

/-! ### Words as bytes and back -/

/-- `toBytes` of every word, one behind the other. -/
def toBytesEach (byteOrder : ByteOrder) : List UInt32 → Mem → Nat → Except String Mem
  | [], memory, _ => .ok memory
  | word :: rest, memory, dest => do
      let memory ← toBytes word byteOrder memory (some dest)
      toBytesEach byteOrder rest memory (dest + 4)

/-- The words come back. -/
def RoundTrips (memory : Mem) (data : Nat) (byteOrder : ByteOrder) (words : Memory UInt32)
    (dest : Nat) (list : List UInt32) : Prop :=
  ∃ bytes fuel result, toBytesEach byteOrder list memory data = .ok bytes ∧
    toIntArray fuel bytes (some data) (UInt32.ofNat (4 * list.length)) byteOrder words
      (some dest) = some (.ok (some result)) ∧
    result.words.read dest list.length = list

theorem toBytesEach_eq (byteOrder : ByteOrder) (list : List UInt32) (memory : Mem) (dest : Nat) :
    toBytesEach byteOrder list memory dest =
      .ok (memory.write dest (list.flatMap fun word => Radix.bytes byteOrder 4 word.toNat)) := by
  induction list generalizing memory dest with
  | nil =>
      rw [toBytesEach, List.flatMap_nil, Memory.write_nil]
  | cons word rest inductionHypothesis =>
      rw [toBytesEach, toBytes_eq]
      change toBytesEach byteOrder rest _ _ = _
      rw [inductionHypothesis, List.flatMap_cons, ← Memory.write_append, Radix.bytes_length]

/-- What `toBytes` has written is read as the words again. -/
theorem wordAt_toBytes (byteOrder : ByteOrder) (list : List UInt32) (memory : Mem) (data : Nat) :
    (List.range list.length).map (wordAt (memory.write data
      (list.flatMap fun word => Radix.bytes byteOrder 4 word.toNat)) data byteOrder) = list := by
  induction list generalizing memory data with
  | nil => rfl
  | cons word rest inductionHypothesis =>
      have written := memory.write_append data (Radix.bytes byteOrder 4 word.toNat)
        (rest.flatMap fun word => Radix.bytes byteOrder 4 word.toNat)
      rw [Radix.bytes_length] at written
      rw [List.flatMap_cons, ← written, List.length_cons, List.range_succ_eq_map, List.map_cons,
        List.map_map]
      have first := Memory.read_write_self memory data (Radix.bytes byteOrder 4 word.toNat)
      rw [Radix.bytes_length] at first
      have kept := Memory.read_write_disjoint
        (memory.write data (Radix.bytes byteOrder 4 word.toNat)) (data + 4)
        (rest.flatMap fun word => Radix.bytes byteOrder 4 word.toNat)
        (.inl le_rfl : data + 4 ≤ data + 4 ∨ _)
      congr 1
      · rw [wordAt, show data + 4 * 0 = data from rfl, kept, first,
          ofNat_bytes_four]
      · apply Eq.trans _ (inductionHypothesis
          (memory.write data (Radix.bytes byteOrder 4 word.toNat)) (data + 4))
        apply List.map_congr_left
        intro index _
        rw [Function.comp_apply, wordAt, wordAt, Nat.succ_eq_add_one,
          show data + 4 * (index + 1) = data + 4 + 4 * index by omega]

theorem roundTrips_iff (memory : Mem) (data : Nat) (byteOrder : ByteOrder)
    (words : Memory UInt32) (dest : Nat) (list : List UInt32) (below : 4 * list.length < 2 ^ 31) :
    RoundTrips memory data byteOrder words dest list ↔ list ≠ [] := by
  have length : (UInt32.ofNat (4 * list.length)).toNat = 4 * list.length := by
    rw [UInt32.toNat_ofNat']
    exact Nat.mod_eq_of_lt (by omega)
  have words_eq : 4 * list.length / 4 = list.length := by omega
  constructor
  · intro returned isNil
    obtain ⟨bytes, fuel, result, -, done, -⟩ := returned
    apply not_toIntArray_some bytes data byteOrder words dest _ fuel result done
    rw [length, isNil]
    decide
  · intro notNil
    have some_word : 0 < list.length := List.length_pos_iff.mpr notNil
    obtain ⟨fuel, done⟩ := toIntArray_converted
      (memory.write data (list.flatMap fun word => Radix.bytes byteOrder 4 word.toNat)) data
      byteOrder words dest (length.symm ▸ below) (by omega)
    refine ⟨_, fuel, _, toBytesEach_eq byteOrder list memory data, done fuel le_rfl, ?_⟩
    rw [length, words_eq, converted, wordAt_toBytes]
    exact Memory.read_write_self words dest list

theorem toIntArray_correct_iff (byteOrder : ByteOrder) (memory : Mem) (data : Nat)
    (words : Memory UInt32) (dest : Nat) :
    (∀ dataLen : UInt32, dataLen.toNat < 2 ^ 31 →
      (Converts memory data byteOrder words dest dataLen ↔ 3 ≤ dataLen.toNat)) ∧
    ∀ list : List UInt32, 4 * list.length < 2 ^ 31 →
      (RoundTrips memory data byteOrder words dest list ↔ list ≠ []) := by
  constructor
  · intro dataLen below
    exact converts_iff memory data byteOrder words dest below
  · intro list below
    exact roundTrips_iff memory data byteOrder words dest list below

theorem toIntArray_correct_iff_seven :
    (7 : UInt32).toNat < 2 ^ 31 ∧ 4 * [(0xc0da0100 : UInt32)].length < 2 ^ 31 ∧
      Converts (fun address => UInt8.ofNat address) 9 .big (fun _ => 0) 3 7 ∧
      RoundTrips (fun _ => 0) 5 .little (fun _ => 0) 2 [0xc0da0100] := by
  have lengths : (7 : UInt32).toNat < 2 ^ 31 := by decide
  have one : 4 * [(0xc0da0100 : UInt32)].length < 2 ^ 31 := by decide
  have arrays := (toIntArray_correct_iff .big (fun address => UInt8.ofNat address) 9
    (fun _ => 0) 3).1 7 lengths
  have lists := (toIntArray_correct_iff .little (fun _ => 0) 5 (fun _ => 0) 2).2 _ one
  exact ⟨lengths, one, arrays.mpr (by decide), lists.mpr (by decide)⟩

/-- Four bytes are read from an empty array in the first round, and the loop runs
on until its variable overflows. -/
theorem not_converts_empty :
    toIntArrayRound (fun _ => 0x41) 0 0 .big 0
        { i := 0, words := fun _ => 0, reads := [], writes := [] } =
      .again {
        i := 4
        words := Memory.write (fun _ => 0) 0 [0x41414141]
        reads := [0, 1, 2, 3]
        writes := [0] } ∧
      ¬ Converts (fun _ => 0x41) 0 .big (fun _ => 0) 0 0 := by
  constructor
  · rfl
  · intro converts
    exact absurd ((converts_iff _ _ _ _ _ (by decide)).mp converts) (by decide)

end Dift.Evio
