import Dift.Evio.Words
import Dift.Evio.Buffer

/-!
Owns the class `EventHeaderParser`: the three functions that make a header from
bytes and the three that swap a header from one buffer into another and describe it
in a node. They go different ways to the words, `Util::toIntArray` here and the
accessors of the buffers there, and cut the fields out differently; what they make
of a header is the same, and the swapped header reads as the one before.
-/

namespace Dift.Evio

open Dift.Foundation
open Dift.Wire

/-! ### Making a header -/

/-- The fields of the class of all headers. `T` stands for the class `DataType`. -/
structure BaseStructureHeader (T : Type) where
  length : UInt32 := 0
  tag : UInt32 := 0
  dataType : T
  padding : UInt8 := 0
  number : UInt8 := 0
deriving DecidableEq, Repr

/-- The setters of the headers, whose bodies are not in the repository. -/
structure HeaderSetters (T : Type) where
  setLength : BaseStructureHeader T → UInt32 → BaseStructureHeader T
  setTag : BaseStructureHeader T → UInt16 → BaseStructureHeader T
  setDataType : BaseStructureHeader T → UInt32 → BaseStructureHeader T
  setPadding : BaseStructureHeader T → UInt8 → BaseStructureHeader T
  setNumber : BaseStructureHeader T → UInt8 → BaseStructureHeader T

/-- The setters store their argument; a data type is stored as `getDataType` has it. -/
structure HeaderSetters.Lawful {T : Type} (setters : HeaderSetters T)
    (getDataType : UInt32 → T) : Prop where
  setLength : ∀ header len, setters.setLength header len = { header with length := len }
  setTag : ∀ header tag, setters.setTag header tag = { header with tag := tag.toUInt32 }
  setDataType : ∀ header type,
    setters.setDataType header type = { header with dataType := getDataType type }
  setPadding : ∀ header pad, setters.setPadding header pad = { header with padding := pad }
  setNumber : ∀ header number,
    setters.setNumber header number = { header with number := number }

/-- Setters that do so. -/
def HeaderSetters.stores {T : Type} (getDataType : UInt32 → T) : HeaderSetters T where
  setLength header len := { header with length := len }
  setTag header tag := { header with tag := tag.toUInt32 }
  setDataType header type := { header with dataType := getDataType type }
  setPadding header pad := { header with padding := pad }
  setNumber header number := { header with number := number }

theorem HeaderSetters.stores_lawful {T : Type} (getDataType : UInt32 → T) :
    (HeaderSetters.stores getDataType).Lawful getDataType where
  setLength _ _ := rfl
  setTag _ _ := rfl
  setDataType _ _ := rfl
  setPadding _ _ := rfl
  setNumber _ _ := rfl

/-- What may run out of fuel, throw, or have no result. -/
abbrev Ran := OptionT (ExceptT String Option)

section

variable {T : Type} (setters : HeaderSetters T) (unknown32 : T)

/-- `toIntArray` for one word. -/
def readWord (fuel : Nat) (memory : Mem) (bytes : Option Nat) (byteOrder : ByteOrder) :
    Ran UInt32 := do
  let conversion ← (toIntArray fuel memory bytes 4 byteOrder (fun _ => 0) (some 0) : Ran _)
  return conversion.words 0

def createBankHeader (fuel : Nat) (memory : Mem) (bytes : Option Nat) (byteOrder : ByteOrder) :
    Ran (BaseStructureHeader T) := do
  let header : BaseStructureHeader T := { dataType := unknown32 }
  let len ← readWord fuel memory bytes byteOrder
  let header := setters.setLength header len
  let bytes := bytes.map (· + 4)
  let word ← readWord fuel memory bytes byteOrder
  let header := setters.setTag header (word >>> 16).toUInt16
  let dt := word >>> 8 &&& 0xff
  let type := dt &&& 0x3f
  let padding := (dt >>> 6).toUInt8
  let header := setters.setDataType header type
  let header := setters.setPadding header padding
  return setters.setNumber header word.toUInt8

def createSegmentHeader (fuel : Nat) (memory : Mem) (bytes : Option Nat)
    (byteOrder : ByteOrder) : Ran (BaseStructureHeader T) := do
  let header : BaseStructureHeader T := { dataType := unknown32 }
  let word ← readWord fuel memory bytes byteOrder
  let len := word &&& 0xffff
  let header := setters.setLength header len
  let dt := word >>> 16 &&& 0xff
  let type := dt &&& 0x3f
  let padding := dt >>> 6
  let header := setters.setDataType header type
  let header := setters.setPadding header padding.toUInt8
  return setters.setTag header (word >>> 24).toUInt16

def createTagSegmentHeader (fuel : Nat) (memory : Mem) (bytes : Option Nat)
    (byteOrder : ByteOrder) : Ran (BaseStructureHeader T) := do
  let header : BaseStructureHeader T := { dataType := unknown32 }
  let word ← readWord fuel memory bytes byteOrder
  let len := word &&& 0xffff
  let header := setters.setLength header len
  let header := setters.setDataType header (word >>> 16 &&& 0xf)
  return setters.setTag header (word >>> 20).toUInt16

end

/-! ### Swapping a header -/

/-- The fields of a node that a swap sets. -/
structure EvioNode where
  len : UInt32 := 0
  tag : UInt16 := 0
  num : UInt8 := 0
  pad : UInt32 := 0
  pos : UInt64 := 0
  dataLen : UInt32 := 0
  dataPos : UInt64 := 0
  dataType : UInt32 := 0
deriving DecidableEq, Repr

section

variable (accessors : Accessors)

/-- Read and swap one word. The destination is returned as it is left, also by an
exception. -/
def swapWord (srcBuffer destBuffer : ByteBuffer) (srcPos destPos : UInt32) :
    Except Thrown UInt32 × ByteBuffer :=
  match accessors.getInt srcBuffer srcPos.toUInt64 with
  | .error thrown => (.error thrown, destBuffer)
  | .ok number =>
      match accessors.putInt destBuffer destPos.toUInt64 number.toUInt32 with
      | .error thrown => (.error thrown, destBuffer)
      | .ok destBuffer => (.ok number.toUInt32, destBuffer)

def sameOrder : Thrown :=
  .evioException "src & dest buffers need different byte order for swapping"

/-- An exception leaves the node as it was. -/
def swapBankHeader (node : EvioNode) (srcBuffer destBuffer : ByteBuffer)
    (srcPos destPos : UInt32) : Except Thrown EvioNode × ByteBuffer :=
  if srcBuffer.byteOrder = destBuffer.byteOrder then (.error sameOrder, destBuffer)
  else
    match swapWord accessors srcBuffer destBuffer srcPos destPos with
    | (.error thrown, destBuffer) => (.error thrown, destBuffer)
    | (.ok length, destBuffer) =>
        let srcPos := srcPos + 4
        let destPos := destPos + 4
        match swapWord accessors srcBuffer destBuffer srcPos destPos with
        | (.error thrown, destBuffer) => (.error thrown, destBuffer)
        | (.ok word, destBuffer) =>
            let dt := word >>> 8 &&& 0xff
            (.ok { node with
              tag := (word >>> 16 &&& 0xffff).toUInt16
              dataType := dt &&& 0x3f
              pad := dt >>> 6
              num := (word &&& 0xff).toUInt8
              len := length
              pos := (destPos - 4).toUInt64
              dataPos := (destPos + 4).toUInt64
              dataLen := length - 1 }, destBuffer)

/-- A segment or tagsegment has one word, from which the node is described. -/
def swapOneWord (describe : UInt32 → EvioNode) (srcBuffer destBuffer : ByteBuffer)
    (srcPos destPos : UInt32) : Except Thrown EvioNode × ByteBuffer :=
  if srcBuffer.byteOrder = destBuffer.byteOrder then (.error sameOrder, destBuffer)
  else
    match swapWord accessors srcBuffer destBuffer srcPos destPos with
    | (.error thrown, destBuffer) => (.error thrown, destBuffer)
    | (.ok word, destBuffer) => (.ok (describe word), destBuffer)

def swapSegmentHeader (node : EvioNode) (srcBuffer destBuffer : ByteBuffer)
    (srcPos destPos : UInt32) : Except Thrown EvioNode × ByteBuffer :=
  swapOneWord accessors (fun word =>
    let dt := word >>> 16 &&& 0xff
    { node with
      tag := (word >>> 24 &&& 0xff).toUInt16
      dataType := dt &&& 0x3f
      pad := dt >>> 6
      len := word &&& 0xffff
      num := 0
      pos := destPos.toUInt64
      dataPos := (destPos + 4).toUInt64
      dataLen := word &&& 0xffff }) srcBuffer destBuffer srcPos destPos

def swapTagSegmentHeader (node : EvioNode) (srcBuffer destBuffer : ByteBuffer)
    (srcPos destPos : UInt32) : Except Thrown EvioNode × ByteBuffer :=
  swapOneWord accessors (fun word =>
    { node with
      tag := (word >>> 20 &&& 0xfff).toUInt16
      dataType := word >>> 16 &&& 0xf
      len := word &&& 0xffff
      num := 0
      pad := 0
      pos := destPos.toUInt64
      dataPos := (destPos + 4).toUInt64
      dataLen := word &&& 0xffff }) srcBuffer destBuffer srcPos destPos

end

/-! ### The words of a header -/

/-- The word of four bytes. -/
def wordOf (byteOrder : ByteOrder) (stored : List UInt8) : UInt32 :=
  UInt32.ofNat (Radix.value byteOrder stored)

theorem wordOf_bytes (byteOrder : ByteOrder) (word : UInt32) :
    wordOf byteOrder (Radix.bytes byteOrder 4 word.toNat) = word :=
  ofNat_bytes_four byteOrder word

/-- The function returns this header whenever the fuel suffices. -/
def ReturnsHeader {T : Type}
    (create : Nat → Mem → Option Nat → ByteOrder → Ran (BaseStructureHeader T)) (memory : Mem)
    (bytes : Nat) (byteOrder : ByteOrder) (header : BaseStructureHeader T) : Prop :=
  ∃ fuel, ∀ more, fuel ≤ more → create more memory (some bytes) byteOrder = pure header

theorem readWord_eq (memory : Mem) (bytes : Nat) (byteOrder : ByteOrder) :
    ∃ fuel, ∀ more, fuel ≤ more →
      readWord more memory (some bytes) byteOrder =
        pure (wordOf byteOrder (memory.read bytes 4)) := by
  obtain ⟨fuel, done⟩ := toIntArray_converted memory bytes byteOrder (fun _ => 0) 0
    (show (4 : UInt32).toNat < 2 ^ 31 by decide) (by decide)
  refine ⟨fuel, ?_⟩
  intro more le
  rw [readWord, done more le]
  rfl

section

variable {T : Type} {setters : HeaderSetters T} {getDataType : UInt32 → T}
  (settersLawful : setters.Lawful getDataType) (unknown32 : T)

/-- A bank header from its two words. -/
def bankHeader (getDataType : UInt32 → T) (len word : UInt32) : BaseStructureHeader T where
  length := len
  tag := (word >>> 16).toUInt16.toUInt32
  dataType := getDataType ((word >>> 8 &&& 0xff) &&& 0x3f)
  padding := ((word >>> 8 &&& 0xff) >>> 6).toUInt8
  number := word.toUInt8

/-- A segment header from its word. -/
def segmentHeader (getDataType : UInt32 → T) (word : UInt32) : BaseStructureHeader T where
  length := word &&& 0xffff
  tag := (word >>> 24).toUInt16.toUInt32
  dataType := getDataType ((word >>> 16 &&& 0xff) &&& 0x3f)
  padding := ((word >>> 16 &&& 0xff) >>> 6).toUInt8

/-- A tagsegment header from its word. -/
def tagSegmentHeader (getDataType : UInt32 → T) (word : UInt32) : BaseStructureHeader T where
  length := word &&& 0xffff
  tag := (word >>> 20).toUInt16.toUInt32
  dataType := getDataType (word >>> 16 &&& 0xf)

include settersLawful

theorem createBankHeader_returns (memory : Mem) (bytes : Nat) (byteOrder : ByteOrder) :
    ReturnsHeader (createBankHeader setters unknown32) memory bytes byteOrder
      (bankHeader getDataType (wordOf byteOrder (memory.read bytes 4))
        (wordOf byteOrder (memory.read (bytes + 4) 4))) := by
  obtain ⟨fuelFirst, first⟩ := readWord_eq memory bytes byteOrder
  obtain ⟨fuelSecond, second⟩ := readWord_eq memory (bytes + 4) byteOrder
  refine ⟨max fuelFirst fuelSecond, ?_⟩
  intro more le
  rw [createBankHeader, first more (le_of_max_le_left le), pure_bind, Option.map_some]
  simp only [second more (le_of_max_le_right le), pure_bind, settersLawful.setLength,
    settersLawful.setTag, settersLawful.setDataType, settersLawful.setPadding,
    settersLawful.setNumber]
  rfl

theorem createSegmentHeader_returns (memory : Mem) (bytes : Nat) (byteOrder : ByteOrder) :
    ReturnsHeader (createSegmentHeader setters unknown32) memory bytes byteOrder
      (segmentHeader getDataType (wordOf byteOrder (memory.read bytes 4))) := by
  obtain ⟨fuel, first⟩ := readWord_eq memory bytes byteOrder
  refine ⟨fuel, ?_⟩
  intro more le
  rw [createSegmentHeader, first more le, pure_bind]
  simp only [settersLawful.setLength, settersLawful.setTag, settersLawful.setDataType,
    settersLawful.setPadding]
  rfl

theorem createTagSegmentHeader_returns (memory : Mem) (bytes : Nat) (byteOrder : ByteOrder) :
    ReturnsHeader (createTagSegmentHeader setters unknown32) memory bytes byteOrder
      (tagSegmentHeader getDataType (wordOf byteOrder (memory.read bytes 4))) := by
  obtain ⟨fuel, first⟩ := readWord_eq memory bytes byteOrder
  refine ⟨fuel, ?_⟩
  intro more le
  rw [createTagSegmentHeader, first more le, pure_bind]
  simp only [settersLawful.setLength, settersLawful.setTag, settersLawful.setDataType]
  rfl

end

/-! ### The fields -/

/-- A header and a node have the same fields. -/
structure FieldsAgree {T : Type} (getDataType : UInt32 → T) (header : BaseStructureHeader T)
    (node : EvioNode) : Prop where
  tag : header.tag = node.tag.toUInt32
  dataType : header.dataType = getDataType node.dataType
  padding : header.padding.toUInt32 = node.pad
  number : header.number = node.num
  length : header.length = node.len

theorem and_mask {number mask : UInt32} (bits : Nat) (isMask : mask.toNat = 2 ^ bits - 1) :
    (number &&& mask).toNat = number.toNat % 2 ^ bits := by
  rw [UInt32.toNat_and, isMask, Nat.and_two_pow_sub_one_eq_mod]

theorem toUInt16_mask (number : UInt32) : (number &&& 0xffff).toUInt16 = number.toUInt16 := by
  apply UInt16.toNat_inj.mp
  rw [UInt32.toNat_toUInt16, UInt32.toNat_toUInt16, and_mask 16 rfl, Nat.mod_mod]

theorem toUInt8_mask (number : UInt32) : (number &&& 0xff).toUInt8 = number.toUInt8 := by
  apply UInt8.toNat_inj.mp
  rw [UInt32.toNat_toUInt8, UInt32.toNat_toUInt8, and_mask 8 rfl, Nat.mod_mod]

/-- A mask that covers what a shift has left changes nothing. -/
theorem shiftRight_mask (word : UInt32) {step mask : UInt32} (bits : Nat)
    (isMask : mask.toNat = 2 ^ bits - 1) (covers : step.toNat % 32 + bits = 32) :
    word >>> step &&& mask = word >>> step := by
  have small : (word >>> step).toNat < 2 ^ bits := by
    rw [UInt32.toNat_shiftRight, Nat.shiftRight_eq_div_pow]
    apply Nat.div_lt_of_lt_mul
    rw [← pow_add, covers]
    exact word.toNat_lt
  apply UInt32.toNat_inj.mp
  rw [and_mask bits isMask, Nat.mod_eq_of_lt small]

theorem padding_eq (number : UInt32) :
    ((number &&& 0xff) >>> 6).toUInt8.toUInt32 = (number &&& 0xff) >>> 6 := by
  have small : ((number &&& 0xff) >>> 6).toNat < 2 ^ 8 := by
    rw [UInt32.toNat_shiftRight]
    apply lt_of_le_of_lt (Nat.shiftRight_le _ _)
    rw [and_mask 8 rfl]
    exact Nat.mod_lt _ (by decide)
  apply UInt32.toNat_inj.mp
  rw [UInt8.toNat_toUInt32, UInt32.toNat_toUInt8, Nat.mod_eq_of_lt small]

theorem bankHeader_agrees {T : Type} (getDataType : UInt32 → T) (len word : UInt32)
    {node : EvioNode} (tag : node.tag = (word >>> 16 &&& 0xffff).toUInt16)
    (dataType : node.dataType = (word >>> 8 &&& 0xff) &&& 0x3f)
    (pad : node.pad = (word >>> 8 &&& 0xff) >>> 6) (num : node.num = (word &&& 0xff).toUInt8)
    (length : node.len = len) :
    FieldsAgree getDataType (bankHeader getDataType len word) node where
  tag := by rw [tag, toUInt16_mask]; rfl
  dataType := by rw [dataType]; rfl
  padding := by rw [pad]; exact padding_eq _
  number := by rw [num, toUInt8_mask]; rfl
  length := length.symm

theorem segmentHeader_agrees {T : Type} (getDataType : UInt32 → T) (word : UInt32)
    {node : EvioNode} (tag : node.tag = (word >>> 24 &&& 0xff).toUInt16)
    (dataType : node.dataType = (word >>> 16 &&& 0xff) &&& 0x3f)
    (pad : node.pad = (word >>> 16 &&& 0xff) >>> 6) (num : node.num = 0)
    (length : node.len = word &&& 0xffff) :
    FieldsAgree getDataType (segmentHeader getDataType word) node where
  tag := by rw [tag, shiftRight_mask word 8 rfl rfl]; rfl
  dataType := by rw [dataType]; rfl
  padding := by rw [pad]; exact padding_eq _
  number := num.symm
  length := length.symm

theorem tagSegmentHeader_agrees {T : Type} (getDataType : UInt32 → T) (word : UInt32)
    {node : EvioNode} (tag : node.tag = (word >>> 20 &&& 0xfff).toUInt16)
    (dataType : node.dataType = word >>> 16 &&& 0xf) (pad : node.pad = 0) (num : node.num = 0)
    (length : node.len = word &&& 0xffff) :
    FieldsAgree getDataType (tagSegmentHeader getDataType word) node where
  tag := by rw [tag, shiftRight_mask word 12 rfl rfl]; rfl
  dataType := by rw [dataType]; rfl
  padding := pad.symm
  number := num.symm
  length := length.symm

/-! ### Swapping the words -/

namespace ByteBuffer

/-- The buffer has room for so many bytes at a position. -/
structure Room (buffer : ByteBuffer) (pos : UInt32) (size : Nat) : Prop where
  below : pos.toNat + size ≤ buffer.lim.toNat
  position : pos.toNat + size ≤ 2 ^ 32
  addresses : buffer.off.toNat + buffer.lim.toNat ≤ 2 ^ 64

/-- The bytes at a position. -/
def stored (buffer : ByteBuffer) (pos : UInt32) (size : Nat) : List UInt8 :=
  buffer.buf.read (buffer.off.toNat + pos.toNat) size

/-- The buffer after a word was written at a position. -/
def written (buffer : ByteBuffer) (pos : UInt32) (word : UInt32) : ByteBuffer :=
  { buffer with
    buf := buffer.buf.write (buffer.off.toNat + pos.toNat)
      (Radix.bytes buffer.byteOrder 4 word.toNat) }

variable {buffer : ByteBuffer} {pos : UInt32}

theorem Room.first (room : buffer.Room pos 8) : buffer.Room pos 4 where
  below := by have below := room.below; omega
  position := by have position := room.position; omega
  addresses := room.addresses

theorem Room.toNat_next (room : buffer.Room pos 8) : (pos + 4).toNat = pos.toNat + 4 := by
  have position := room.position
  rw [UInt32.toNat_add]
  exact Nat.mod_eq_of_lt (show pos.toNat + 4 < 2 ^ 32 by omega)

theorem Room.next (room : buffer.Room pos 8) : buffer.Room (pos + 4) 4 where
  below := by rw [room.toNat_next]; exact room.below
  position := by rw [room.toNat_next]; exact room.position
  addresses := room.addresses

theorem Room.inside (room : buffer.Room pos 4) : pos.toUInt64 + 4 ≤ buffer.lim := by
  have below := room.below
  rw [UInt64.le_iff_toNat_le, UInt64.toNat_add, UInt32.toNat_toUInt64]
  exact le_trans (Nat.mod_le _ _) below

theorem Room.address (room : buffer.Room pos 4) :
    (pos.toUInt64 + buffer.off).toNat = buffer.off.toNat + pos.toNat := by
  have below := room.below
  have addresses := room.addresses
  rw [UInt64.toNat_add, UInt32.toNat_toUInt64, Nat.add_comm]
  exact Nat.mod_eq_of_lt (by omega)

theorem Room.after {other : UInt32} {size : Nat} (room : buffer.Room other size)
    (pos word : UInt32) : (buffer.written pos word).Room other size where
  below := room.below
  position := room.position
  addresses := room.addresses

theorem stored_written (word : UInt32) :
    (buffer.written pos word).stored pos 4 = Radix.bytes buffer.byteOrder 4 word.toNat := by
  have read := Memory.read_write_self buffer.buf (buffer.off.toNat + pos.toNat)
    (Radix.bytes buffer.byteOrder 4 word.toNat)
  rwa [Radix.bytes_length] at read

theorem Room.stored_eight (room : buffer.Room pos 8) :
    buffer.stored pos 8 = buffer.stored pos 4 ++ buffer.stored (pos + 4) 4 := by
  rw [stored, stored, stored, room.toNat_next, ← Nat.add_assoc]
  exact buffer.buf.read_add (buffer.off.toNat + pos.toNat) 4 4

/-- The second word of a header does not touch the first one. -/
theorem Room.stored_written_next (room : buffer.Room pos 8) (word : UInt32) :
    (buffer.written (pos + 4) word).stored pos 4 = buffer.stored pos 4 := by
  rw [stored, stored, ByteBuffer.written, room.toNat_next]
  exact buffer.buf.read_write_disjoint _ _ (.inl (Nat.add_assoc _ _ _).le)

end ByteBuffer

/-- What is told of a bank with these two words. -/
def bankNode (node : EvioNode) (destPos length word : UInt32) : EvioNode :=
  { node with
    tag := (word >>> 16 &&& 0xffff).toUInt16
    dataType := (word >>> 8 &&& 0xff) &&& 0x3f
    pad := (word >>> 8 &&& 0xff) >>> 6
    num := (word &&& 0xff).toUInt8
    len := length
    pos := (destPos + 4 - 4).toUInt64
    dataPos := (destPos + 4 + 4).toUInt64
    dataLen := length - 1 }

theorem ne_of_opposite {src dest : ByteBuffer}
    (opposite : dest.byteOrder = src.byteOrder.opposite) : src.byteOrder ≠ dest.byteOrder := by
  rw [opposite]
  cases src.byteOrder <;> decide

section

variable {accessors : Accessors} (lawful : accessors.Lawful) {src dest : ByteBuffer}
  {srcPos destPos : UInt32}

include lawful

theorem swapWord_eq (srcRoom : src.Room srcPos 4) (destRoom : dest.Room destPos 4) :
    swapWord accessors src dest srcPos destPos =
      (.ok (wordOf src.byteOrder (src.stored srcPos 4)),
        dest.written destPos (wordOf src.byteOrder (src.stored srcPos 4))) := by
  have number := getInt_inside lawful srcRoom.inside
  rw [srcRoom.address] at number
  have put : accessors.putInt dest destPos.toUInt64 (wordOf src.byteOrder (src.stored srcPos 4)) =
      .ok (dest.written destPos (wordOf src.byteOrder (src.stored srcPos 4))) := by
    rw [lawful.putInt, ByteBuffer.write, Radix.bytes_length, if_neg, destRoom.address]
    · rfl
    · exact UInt64.not_lt.mpr destRoom.inside
  rw [swapWord, number]
  simp only [UInt32.toUInt32_toInt32]
  rw [show UInt32.ofNat (Radix.value src.byteOrder
    (src.buf.read (src.off.toNat + srcPos.toNat) 4)) =
      wordOf src.byteOrder (src.stored srcPos 4) from rfl, put]

theorem swapOneWord_eq (describe : UInt32 → EvioNode)
    (opposite : dest.byteOrder = src.byteOrder.opposite) (srcRoom : src.Room srcPos 4)
    (destRoom : dest.Room destPos 4) :
    swapOneWord accessors describe src dest srcPos destPos =
      (.ok (describe (wordOf src.byteOrder (src.stored srcPos 4))),
        dest.written destPos (wordOf src.byteOrder (src.stored srcPos 4))) := by
  rw [swapOneWord, if_neg (ne_of_opposite opposite), swapWord_eq lawful srcRoom destRoom]

theorem swapBankHeader_eq (node : EvioNode) (opposite : dest.byteOrder = src.byteOrder.opposite)
    (srcRoom : src.Room srcPos 8) (destRoom : dest.Room destPos 8) :
    swapBankHeader accessors node src dest srcPos destPos =
      (.ok (bankNode node destPos (wordOf src.byteOrder (src.stored srcPos 4))
        (wordOf src.byteOrder (src.stored (srcPos + 4) 4))),
        (dest.written destPos (wordOf src.byteOrder (src.stored srcPos 4))).written (destPos + 4)
          (wordOf src.byteOrder (src.stored (srcPos + 4) 4))) := by
  have afterFirst := destRoom.after destPos (wordOf src.byteOrder (src.stored srcPos 4))
  rw [swapBankHeader, if_neg (ne_of_opposite opposite),
    swapWord_eq lawful srcRoom.first destRoom.first]
  simp only [swapWord_eq lawful srcRoom.next afterFirst.next]
  rfl

end

/-! ### Parsing and swapping agree -/

/-- Wherever there is room, the swap returns, and the header made from the bytes of
the source in its byte order has the fields of the node and is also the one made from
the bytes written, in the other byte order. -/
def SwapAgrees {T : Type} (getDataType : UInt32 → T)
    (create : Nat → Mem → Option Nat → ByteOrder → Ran (BaseStructureHeader T))
    (swap : EvioNode → ByteBuffer → ByteBuffer → UInt32 → UInt32 →
      Except Thrown EvioNode × ByteBuffer) (size : Nat) : Prop :=
  ∀ (node : EvioNode) (src dest : ByteBuffer) (srcPos destPos : UInt32),
    dest.byteOrder = src.byteOrder.opposite → src.Room srcPos size → dest.Room destPos size →
    ∃ described swapped header,
      swap node src dest srcPos destPos = (.ok described, swapped) ∧
      FieldsAgree getDataType header described ∧
      (∀ memory bytes, Memory.read memory bytes size = src.stored srcPos size →
        ReturnsHeader create memory bytes src.byteOrder header) ∧
      ∀ memory bytes, Memory.read memory bytes size = swapped.stored destPos size →
        ReturnsHeader create memory bytes src.byteOrder.opposite header

section

variable {accessors : Accessors} (lawful : accessors.Lawful) {T : Type}
  {setters : HeaderSetters T} {getDataType : UInt32 → T}
  (settersLawful : setters.Lawful getDataType) (unknown32 : T)

include lawful

/-- With one word, the same function of the word makes the header on all ways. -/
theorem oneWord_agrees
    {create : Nat → Mem → Option Nat → ByteOrder → Ran (BaseStructureHeader T)}
    {swap : EvioNode → ByteBuffer → ByteBuffer → UInt32 → UInt32 →
      Except Thrown EvioNode × ByteBuffer}
    (header : UInt32 → BaseStructureHeader T) (describe : EvioNode → UInt32 → UInt32 → EvioNode)
    (creates : ∀ memory bytes byteOrder, ReturnsHeader create memory bytes byteOrder
      (header (wordOf byteOrder (Memory.read memory bytes 4))))
    (swaps : ∀ node src dest srcPos destPos, swap node src dest srcPos destPos =
      swapOneWord accessors (describe node destPos) src dest srcPos destPos)
    (agree : ∀ node destPos word,
      FieldsAgree getDataType (header word) (describe node destPos word)) :
    SwapAgrees getDataType create swap 4 := by
  intro node src dest srcPos destPos opposite srcRoom destRoom
  refine ⟨_, _, header (wordOf src.byteOrder (src.stored srcPos 4)),
    (swaps node src dest srcPos destPos).trans
      (swapOneWord_eq lawful _ opposite srcRoom destRoom), agree _ _ _, ?_, ?_⟩
  · intro memory bytes same
    rw [← same]
    exact creates memory bytes src.byteOrder
  · intro memory bytes same
    have returns := creates memory bytes src.byteOrder.opposite
    rwa [same, ByteBuffer.stored_written, opposite, wordOf_bytes] at returns

include settersLawful

theorem segment_agrees :
    SwapAgrees getDataType (createSegmentHeader setters unknown32) (swapSegmentHeader accessors)
      4 := by
  apply oneWord_agrees lawful (segmentHeader getDataType) _
    (createSegmentHeader_returns settersLawful unknown32) (fun _ _ _ _ _ => rfl)
  intro node destPos word
  exact segmentHeader_agrees getDataType word rfl rfl rfl rfl rfl

theorem tagSegment_agrees :
    SwapAgrees getDataType (createTagSegmentHeader setters unknown32)
      (swapTagSegmentHeader accessors) 4 := by
  apply oneWord_agrees lawful (tagSegmentHeader getDataType) _
    (createTagSegmentHeader_returns settersLawful unknown32) (fun _ _ _ _ _ => rfl)
  intro node destPos word
  exact tagSegmentHeader_agrees getDataType word rfl rfl rfl rfl rfl

theorem bank_agrees :
    SwapAgrees getDataType (createBankHeader setters unknown32) (swapBankHeader accessors) 8 := by
  intro node src dest srcPos destPos opposite srcRoom destRoom
  have creates := createBankHeader_returns settersLawful unknown32
  refine ⟨_, _, bankHeader getDataType (wordOf src.byteOrder (src.stored srcPos 4))
      (wordOf src.byteOrder (src.stored (srcPos + 4) 4)),
    swapBankHeader_eq lawful node opposite srcRoom destRoom,
    bankHeader_agrees getDataType _ _ rfl rfl rfl rfl rfl, ?_, ?_⟩
  · intro memory bytes same
    rw [srcRoom.stored_eight, Memory.read_add memory bytes 4 4] at same
    obtain ⟨first, second⟩ := List.append_inj same (by simp [ByteBuffer.stored])
    rw [← first, ← second]
    exact creates memory bytes src.byteOrder
  · intro memory bytes same
    have afterFirst := destRoom.after destPos (wordOf src.byteOrder (src.stored srcPos 4))
    have afterSecond := afterFirst.after (destPos + 4)
      (wordOf src.byteOrder (src.stored (srcPos + 4) 4))
    rw [afterSecond.stored_eight, afterFirst.stored_written_next, ByteBuffer.stored_written,
      ByteBuffer.stored_written, Memory.read_add memory bytes 4 4] at same
    obtain ⟨first, second⟩ := List.append_inj same (by simp)
    have returns := creates memory bytes src.byteOrder.opposite
    rw [first, second] at returns
    have order : (dest.written destPos (wordOf src.byteOrder (src.stored srcPos 4))).byteOrder =
        src.byteOrder.opposite := opposite
    rwa [order, opposite, wordOf_bytes, wordOf_bytes] at returns

theorem headers_agree :
    SwapAgrees getDataType (createBankHeader setters unknown32) (swapBankHeader accessors) 8 ∧
      SwapAgrees getDataType (createSegmentHeader setters unknown32)
        (swapSegmentHeader accessors) 4 ∧
      SwapAgrees getDataType (createTagSegmentHeader setters unknown32)
        (swapTagSegmentHeader accessors) 4 :=
  ⟨bank_agrees lawful settersLawful unknown32, segment_agrees lawful settersLawful unknown32,
    tagSegment_agrees lawful settersLawful unknown32⟩

end

theorem headers_agree_sampleHeader :
    Accessors.templates.Lawful ∧ (HeaderSetters.stores id).Lawful id ∧
      ∃ described swapped header,
        swapBankHeader .templates {} sampleHeader { sampleHeader with byteOrder := .big } 24 0 =
          (.ok described, swapped) ∧
        FieldsAgree id header described ∧
        ReturnsHeader (createBankHeader (.stores id) 0) sampleHeader.buf 24 .little header := by
  have agree := (headers_agree Accessors.templates_lawful (HeaderSetters.stores_lawful id) 0).1
  have room (byteOrder : ByteOrder) (pos : UInt32) (below : pos.toNat + 8 ≤ 32) :
      { sampleHeader with byteOrder := byteOrder }.Room pos 8 :=
    ⟨below, by omega,
      show sampleHeader.off.toNat + sampleHeader.lim.toNat ≤ 2 ^ 64 by decide⟩
  obtain ⟨described, swapped, header, returned, fields, created, -⟩ := agree {} sampleHeader
    { sampleHeader with byteOrder := .big } 24 0 rfl (room .little 24 (by decide))
    (room .big 0 (by decide))
  exact ⟨Accessors.templates_lawful, HeaderSetters.stores_lawful id, described, swapped, header,
    returned, fields, created sampleHeader.buf 24 rfl⟩

end Dift.Evio
