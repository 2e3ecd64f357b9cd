import Dift.Wire.Codecs

/-!
Owns the five parsers of the version 2 reassembly header: the forms of
`parseReHeader` that return through pointers, a struct, three pointers or an array,
and `parseReHeaderFast`. They agree, except that the form with an array asks for
more than the four elements it fills, and leaves an array of four as it was.
-/

namespace Dift.Wire

open Dift.Foundation

/-! ### The parsers -/

/-- What `parseReHeader` returns through five pointers. -/
structure RePointers where
  version : Int32
  dataId : UInt16
  offset : UInt32
  length : UInt32
  tick : UInt64
deriving DecidableEq, Repr

def parseReHeaderPointers (host : ByteOrder) (memory : Mem) (buffer : Nat) : RePointers where
  version := charToInt (memory buffer) >>> 4 &&& 0xf
  dataId := ntohs host (load16 host memory (buffer + 2))
  offset := ntohl host (load32 host memory (buffer + 4))
  length := ntohl host (load32 host memory (buffer + 8))
  tick := ntohll host (load64 host memory (buffer + 12))

/-- What `parseReHeader` returns through three pointers. -/
structure ReValues where
  offset : UInt32
  length : UInt32
  tick : UInt64
deriving DecidableEq, Repr

def parseReHeaderValues (host : ByteOrder) (memory : Mem) (buffer : Nat) : ReValues where
  offset := ntohl host (load32 host memory (buffer + 4))
  length := ntohl host (load32 host memory (buffer + 8))
  tick := ntohll host (load64 host memory (buffer + 12))

/-- The form of `parseReHeader` that fills an array of words, which stands in a memory
of its own. The second result is the tick. -/
def parseReHeaderArray (host : ByteOrder) (memory : Mem) (buffer : Nat) (array : Mem)
    (intArray : Option Nat) (arraySize : Int32) : Mem × UInt64 :=
  let tick := ntohll host (load64 host memory (buffer + 12))
  match intArray with
  | none => (array, tick)
  | some intArray =>
      if arraySize > 4 then
        let array := store32 host array intArray
          (charToInt (memory buffer) >>> 4 &&& 0xf).toUInt32
        let array := store32 host array (intArray + 4)
          (ntohs host (load16 host memory (buffer + 2))).toUInt32
        let array := store32 host array (intArray + 8)
          (ntohl host (load32 host memory (buffer + 4)))
        let array := store32 host array (intArray + 12)
          (ntohl host (load32 host memory (buffer + 8)))
        (array, tick)
      else (array, tick)

/-- The address of an element. -/
def element (intArray : Nat) (index : Int) : Nat := (intArray + 4 * index).toNat

/-- The tick is stored as one number of 64 bits in the order of the host. There is no
result when the index, an `int`, overflows. -/
def parseReHeaderFast (host : ByteOrder) (memory : Mem) (buffer : Nat) (array : Mem)
    (intArray : Nat) (index : Int32) : Option (Mem × UInt64) :=
  if index.toInt + 2 < 2 ^ 31 then
    let array := store32 host array (element intArray index.toInt)
      (ntohl host (load32 host memory (buffer + 4)))
    let array := store32 host array (element intArray (index.toInt + 1))
      (ntohl host (load32 host memory (buffer + 8)))
    let tick := ntohll host (load64 host memory (buffer + 12))
    some (store64 host array (element intArray (index.toInt + 2)) tick, tick)
  else none

/-- The fields by their numbers, as the receivers use them. -/
theorem parseReHeader_eq (host : ByteOrder) (memory : Mem) (buffer : Nat) :
    parseReHeader host memory buffer =
      let fields := parseReHeaderPointers host memory buffer
      ⟨fields.version.toInt.toNat, fields.dataId, fields.offset, fields.length, fields.tick⟩ := by
  have small : (memory buffer).toNat < 256 := (memory buffer).toNat_lt
  have nibble : (memory buffer).toNat / 16 % 16 = (memory buffer).toNat / 16 :=
    Nat.mod_eq_of_lt (by omega)
  simp only [parseReHeader, parseReHeaderPointers, charToInt_nibble, nibble]
  rfl

/-- The form with five pointers returns what was written. -/
theorem parseReHeaderPointers_reHeader {host : ByteOrder} {memory : Mem} {buffer : Nat}
    {offset length : UInt32} {tick : UInt64} {version : Int} {dataId : UInt16} {reserved : Int}
    (held : memory.read buffer reHeaderBytes =
      reHeader offset length tick version dataId reserved)
    (atLeast : 0 ≤ version) (below : version < 16) :
    parseReHeaderPointers host memory buffer =
      ⟨Int32.ofInt version, dataId, offset, length, tick⟩ := by
  have parsed : parseReHeader host memory buffer =
      ⟨version.toNat, dataId, offset, length, tick⟩ :=
    parseReHeader_reHeader held atLeast below
  rw [parseReHeader_eq] at parsed
  injection parsed with isVersion isDataId isOffset isLength isTick
  have nibble : (parseReHeaderPointers host memory buffer).version.toInt =
      (memory buffer).toNat / 16 := charToInt_nibble (memory buffer)
  have sameVersion : (parseReHeaderPointers host memory buffer).version = Int32.ofInt version := by
    apply Int32.toInt_inj.mp
    rw [Int32.toInt_ofInt_of_le (by omega) (by omega)]
    omega
  rw [← sameVersion, ← isDataId, ← isOffset, ← isLength, ← isTick]

/-! ### What has been stored -/

theorem load32_eq {host : ByteOrder} {memory : Mem} {pointer : Nat} {word : UInt32}
    (held : memory.read pointer 4 = Radix.bytes host 4 word.toNat) :
    load32 host memory pointer = word := by
  rw [load32, held, ofNat_bytes_four]

theorem load64_eq {host : ByteOrder} {memory : Mem} {pointer : Nat} {word : UInt64}
    (held : memory.read pointer 8 = Radix.bytes host 8 word.toNat) :
    load64 host memory pointer = word := by
  rw [load64, held, ofNat_bytes_eight]

section

variable (host : ByteOrder) (memory : Mem) (buffer : Nat) (array : Mem) (intArray : Nat)

/-- The first four elements are these fields. -/
def ArrayHolds (after : Mem) (fields : RePointers) : Prop :=
  load32 host after intArray = fields.version.toUInt32 ∧
    load32 host after (intArray + 4) = fields.dataId.toUInt32 ∧
    load32 host after (intArray + 8) = fields.offset ∧
    load32 host after (intArray + 12) = fields.length

/-- The first four elements are the numbers that stand in the header. -/
def HoldsHeader : Prop :=
  (load32 host array intArray).toNat = (memory buffer).toNat / 16 ∧
    (load32 host array (intArray + 4)).toNat = Radix.value .big (memory.read (buffer + 2) 2) ∧
    (load32 host array (intArray + 8)).toNat = Radix.value .big (memory.read (buffer + 4) 4) ∧
    (load32 host array (intArray + 12)).toNat = Radix.value .big (memory.read (buffer + 8) 4)

theorem arrayHolds_iff :
    ArrayHolds host intArray array (parseReHeaderPointers host memory buffer) ↔
      HoldsHeader host memory buffer array intArray := by
  have short := value_two_lt .big (Memory.read_length memory (buffer + 2) 2)
  have word (pointer : Nat) := value_four_lt .big (Memory.read_length memory pointer 4)
  rw [ArrayHolds, HoldsHeader, ← UInt32.toNat_inj, ← UInt32.toNat_inj, ← UInt32.toNat_inj,
    ← UInt32.toNat_inj]
  simp only [parseReHeaderPointers, toUInt32_charToInt_nibble, ntohs_load16, ntohl_load32,
    UInt16.toNat_toUInt32, UInt16.toNat_ofNat', UInt32.toNat_ofNat', Nat.mod_eq_of_lt short,
    Nat.mod_eq_of_lt (word _)]

/-- Four words stored one behind the other are read back, and nothing else changes. -/
theorem arrayHolds_write (fields : RePointers) :
    let after := array.write intArray
      (Radix.bytes host 4 fields.version.toUInt32.toNat ++
        (Radix.bytes host 4 fields.dataId.toUInt32.toNat ++
          (Radix.bytes host 4 fields.offset.toNat ++ Radix.bytes host 4 fields.length.toNat)))
    ArrayHolds host intArray after fields ∧
      ∀ address, address < intArray ∨ intArray + 16 ≤ address → after address = array address := by
  intro after
  have held := Memory.read_write_self array intArray
    (Radix.bytes host 4 fields.version.toUInt32.toNat ++
      (Radix.bytes host 4 fields.dataId.toUInt32.toNat ++
        (Radix.bytes host 4 fields.offset.toNat ++ Radix.bytes host 4 fields.length.toNat)))
  obtain ⟨version, held⟩ := Memory.read_split held
  obtain ⟨dataId, held⟩ := Memory.read_split held
  obtain ⟨offset, length⟩ := Memory.read_split held
  simp only [Radix.bytes_length, Nat.add_assoc] at version dataId offset length
  refine ⟨⟨load32_eq version, load32_eq dataId, load32_eq offset, load32_eq length⟩, ?_⟩
  intro address outside
  apply Memory.write_outside
  simpa using outside

/-- The form with an array returns the tick and the array has the other fields, and is
as before otherwise. -/
def ArrayAgrees (arraySize : Int32) : Prop :=
  let fields := parseReHeaderPointers host memory buffer
  let result := parseReHeaderArray host memory buffer array (some intArray) arraySize
  result.2 = fields.tick ∧ ArrayHolds host intArray result.1 fields ∧
    ∀ address, address < intArray ∨ intArray + 16 ≤ address → result.1 address = array address

theorem arrayAgrees_of_large {arraySize : Int32} (large : arraySize > 4) :
    ArrayAgrees host memory buffer array intArray arraySize := by
  let fields := parseReHeaderPointers host memory buffer
  have stored : parseReHeaderArray host memory buffer array (some intArray) arraySize =
      (array.write intArray
        (Radix.bytes host 4 fields.version.toUInt32.toNat ++
          (Radix.bytes host 4 fields.dataId.toUInt32.toNat ++
            (Radix.bytes host 4 fields.offset.toNat ++ Radix.bytes host 4 fields.length.toNat))),
        fields.tick) := by
    simp only [parseReHeaderArray, if_pos large, store32]
    rw [write_next (by simp), write_next (by simp), write_next (by simp)]
    rfl
  rw [ArrayAgrees, stored]
  exact ⟨rfl, arrayHolds_write host array intArray fields⟩

/-- Of four elements none is filled. -/
theorem arrayAgrees_of_not_large_iff {arraySize : Int32} (notLarge : ¬ arraySize > 4) :
    ArrayAgrees host memory buffer array intArray arraySize ↔
      HoldsHeader host memory buffer array intArray := by
  have kept : parseReHeaderArray host memory buffer array (some intArray) arraySize =
      (array, (parseReHeaderPointers host memory buffer).tick) := by
    simp only [parseReHeaderArray, if_neg notLarge]
    rfl
  rw [ArrayAgrees, kept, ← arrayHolds_iff]
  constructor
  · intro agree
    exact agree.2.1
  · intro held
    exact ⟨rfl, held, fun _ _ => rfl⟩

/-- The fast form returns the tick, and the array has the two words, then the tick,
and is as before otherwise. -/
def FastAgrees (index : Int32) : Prop :=
  let fields := parseReHeaderPointers host memory buffer
  ∃ after, parseReHeaderFast host memory buffer array intArray index =
      some (after, fields.tick) ∧
    load32 host after (element intArray index.toInt) = fields.offset ∧
    load32 host after (element intArray (index.toInt + 1)) = fields.length ∧
    load64 host after (element intArray (index.toInt + 2)) = fields.tick ∧
    ∀ address, address < element intArray index.toInt ∨
      element intArray index.toInt + 16 ≤ address → after address = array address

theorem fastAgrees {index : Int32} (small : index.toInt + 2 < 2 ^ 31)
    (inside : 0 ≤ (intArray : Int) + 4 * index.toInt) :
    FastAgrees host memory buffer array intArray index := by
  let fields := parseReHeaderPointers host memory buffer
  have second : element intArray (index.toInt + 1) = element intArray index.toInt + 4 := by
    unfold element
    omega
  have third : element intArray (index.toInt + 2) = element intArray index.toInt + 8 := by
    unfold element
    omega
  have held := Memory.read_write_self array (element intArray index.toInt)
    (Radix.bytes host 4 fields.offset.toNat ++
      (Radix.bytes host 4 fields.length.toNat ++ Radix.bytes host 8 fields.tick.toNat))
  obtain ⟨offset, held⟩ := Memory.read_split held
  obtain ⟨length, tick⟩ := Memory.read_split held
  simp only [Radix.bytes_length, Nat.add_assoc] at offset length tick
  rw [FastAgrees, second, third]
  refine ⟨_, ?_, load32_eq offset, load32_eq length, load64_eq tick, ?_⟩
  · rw [parseReHeaderFast, if_pos small, second, third]
    simp only [store32, store64]
    rw [write_next (by simp), write_next (by simp)]
    rfl
  · intro address outside
    apply Memory.write_outside
    simpa using outside

end

/-! ### When the parsers agree -/

/-- The struct has the fields that the pointers return. -/
def StructAgrees (host : ByteOrder) (memory : Mem) (buffer : Nat) : Prop :=
  let fields := parseReHeaderPointers host memory buffer
  let header := parseReHeaderStruct host memory buffer
  (header.version.toNat : Int) = fields.version.toInt ∧ header.dataId = fields.dataId ∧
    header.offset = fields.offset ∧ header.length = fields.length ∧ header.tick = fields.tick

theorem structAgrees (host : ByteOrder) (memory : Mem) (buffer : Nat) :
    StructAgrees host memory buffer := by
  have version : (parseReHeaderStruct host memory buffer).version.toNat =
      (memory buffer).toNat / 16 := by
    rw [parseReHeaderStruct, toUInt8_charToInt_nibble, UInt8.toNat_shiftRight]
    exact Nat.shiftRight_eq_div_pow _ 4
  refine ⟨?_, rfl, rfl, rfl, rfl⟩
  rw [version, parseReHeaderPointers, charToInt_nibble]
  rfl

/-- The forms return the same fields, as far as each returns them. Where fields are
stored in an array, nothing else of it changes. -/
structure FormsAgree (host : ByteOrder) (memory : Mem) (buffer : Nat) (array : Mem)
    (intArray : Nat) (arraySize index : Int32) : Prop where
  structForm : StructAgrees host memory buffer
  valuesForm :
    let fields := parseReHeaderPointers host memory buffer
    parseReHeaderValues host memory buffer = ⟨fields.offset, fields.length, fields.tick⟩
  arrayForm : ArrayAgrees host memory buffer array intArray arraySize
  fastForm : FastAgrees host memory buffer array intArray index

theorem formsAgree_iff {host : ByteOrder} {memory : Mem} {buffer : Nat} {array : Mem}
    {intArray : Nat} {arraySize index : Int32} (large : 4 ≤ arraySize.toInt)
    (inside : 0 ≤ (intArray : Int) + 4 * index.toInt) :
    FormsAgree host memory buffer array intArray arraySize index ↔
      (arraySize.toInt = 4 → HoldsHeader host memory buffer array intArray) ∧
        index.toInt + 2 < 2 ^ 31 := by
  have largeIff : arraySize > 4 ↔ 4 < arraySize.toInt := Int32.lt_iff_toInt_lt
  constructor
  · intro agree
    constructor
    · intro four
      have notLarge : ¬ arraySize > 4 := by
        rw [largeIff]
        omega
      exact (arrayAgrees_of_not_large_iff host memory buffer array intArray notLarge).mp
        agree.arrayForm
    · by_contra overflows
      obtain ⟨after, returned, -⟩ := agree.fastForm
      rw [parseReHeaderFast, if_neg overflows] at returned
      cases returned
  · intro condition
    obtain ⟨held, small⟩ := condition
    refine ⟨structAgrees host memory buffer, rfl, ?_,
      fastAgrees host memory buffer array intArray small inside⟩
    by_cases isLarge : arraySize > 4
    · exact arrayAgrees_of_large host memory buffer array intArray isLarge
    · apply (arrayAgrees_of_not_large_iff host memory buffer array intArray isLarge).mpr
      apply held
      rw [largeIff] at isLarge
      omega

theorem formsAgree_iff_five :
    4 ≤ (5 : Int32).toInt ∧ 0 ≤ ((8 : Nat) : Int) + 4 * (-1 : Int32).toInt ∧
      FormsAgree .little (fun address => UInt8.ofNat address) 3 (fun _ => 0) 8 5 (-1) := by
  have large : 4 ≤ (5 : Int32).toInt := by decide
  have inside : 0 ≤ ((8 : Nat) : Int) + 4 * (-1 : Int32).toInt := by decide
  exact ⟨large, inside, (formsAgree_iff large inside).mpr
    ⟨fun four => absurd four (by decide), by decide⟩⟩

/-- An array of four keeps its old values. -/
theorem not_formsAgree_four :
    (parseReHeaderArray .little (fun _ => 0x20) 0 (fun _ => 0) (some 0) 4).1 = (fun _ => 0) ∧
      ¬ FormsAgree .little (fun _ => 0x20) 0 (fun _ => 0) 0 4 0 := by
  constructor
  · rfl
  · intro agree
    have held := ((formsAgree_iff (by decide) (by decide)).mp agree).1 (by decide)
    exact absurd held.1 (by decide)

end Dift.Wire
