import Dift.Evio.SixthWord
import Dift.Evio.Words
import Dift.Foundation.Elements

/-!
Owns the writing of block headers of evio versions 2 and 4 into a buffer, word by
word at its position. What is written is found by `Util::findEvioVersion`, whatever
byte order the buffer is read in at first, and the words are read back.
-/

namespace Dift.Evio

open Dift.Foundation
open Dift.Wire

namespace ByteBuffer

/-- The template for relative writes. -/
def writeRelative (buffer : ByteBuffer) (data : List UInt8) : Except Thrown ByteBuffer :=
  if buffer.lim < buffer.pos + UInt64.ofNat data.length then
    .error (.overflowError "buffer overflow")
  else .ok { buffer with
    buf := buffer.buf.write (buffer.pos + buffer.off).toNat data
    pos := buffer.pos + UInt64.ofNat data.length }

/-- The position is not behind the limit, and the bytes up to the limit have
addresses. -/
structure Sound (buffer : ByteBuffer) : Prop where
  inside : buffer.pos ≤ buffer.lim
  addressed : buffer.off.toNat + buffer.lim.toNat < 2 ^ 64

end ByteBuffer

/-- More members whose bodies are not in the repository. -/
structure RelativeAccessors where
  remaining : ByteBuffer → UInt64
  putInt : ByteBuffer → UInt32 → Except Thrown ByteBuffer

namespace RelativeAccessors

/-- What remains is what is between the position and the limit, and words are
written through the template in the byte order of the buffer. -/
structure Lawful (relative : RelativeAccessors) : Prop where
  remaining : ∀ buffer : ByteBuffer, buffer.pos ≤ buffer.lim →
    relative.remaining buffer = buffer.lim - buffer.pos
  putInt : ∀ buffer val, relative.putInt buffer val =
    buffer.writeRelative (Radix.bytes buffer.byteOrder 4 val.toNat)

/-- The members as the template gives them. -/
def templates : RelativeAccessors where
  remaining buffer := buffer.lim - buffer.pos
  putInt buffer val := buffer.writeRelative (Radix.bytes buffer.byteOrder 4 val.toNat)

theorem templates_lawful : templates.Lawful where
  remaining _ _ := rfl
  putInt _ _ := rfl

end RelativeAccessors

namespace Block

/-! ### Writing eight words -/

section

variable (relative : RelativeAccessors)

/-- Calls of `putInt`, one for each word. -/
def putInts (bb : ByteBuffer) : List UInt32 → Except Thrown Unit × ByteBuffer
  | [] => (.ok (), bb)
  | word :: rest =>
      match relative.putInt bb word with
      | .error thrown => (.error thrown, bb)
      | .ok bb => putInts bb rest

/-- The body that `write` has in both classes. The buffer is returned as it is left,
also by an exception. -/
def writeWords (words : List UInt32) (bb : ByteBuffer) : Except Thrown UInt64 × ByteBuffer :=
  if relative.remaining bb < 32 then
    (.error (.overflowError "not enough room in buffer to write"), bb)
  else
    match putInts relative bb words with
    | (.error thrown, bb) => (.error thrown, bb)
    | (.ok (), bb) => (.ok 32, bb)

/-- The words of a block header of version 4. Neither reserved word is written. -/
def HeaderV4.words (header : HeaderV4) : List UInt32 :=
  [header.size, header.number, header.headerLength, header.eventCount, 0, header.getSixthWord, 0,
    header.magicNumber].map UInt32.ofBitVec

/-- The fields of a block header of version 2, less the byte order and the position
in the buffer. They are private, and `setMagicNumber` takes only the magic number. -/
structure HeaderV2 where
  size : UInt32 := 0
  number : UInt32 := 1
  headerLength : UInt32 := 8
  start : UInt32 := 8
  endd : UInt32 := 0
  version : UInt32 := 2
  reserved1 : UInt32 := 0
  magicNumber : UInt32 := Evio.magicNumber
  magic : magicNumber = Evio.magicNumber := by rfl

/-- The words of a block header of version 2. -/
def HeaderV2.words (header : HeaderV2) : List UInt32 :=
  [header.size, header.number, header.headerLength, header.start, header.endd, header.version,
    header.reserved1, header.magicNumber]

/-- A block header of either class. -/
inductive IBlockHeader where
  | v2 (header : HeaderV2)
  | v4 (header : HeaderV4)

namespace IBlockHeader

def words : IBlockHeader → List UInt32
  | .v2 header => header.words
  | .v4 header => header.words

def getVersion : IBlockHeader → UInt32
  | .v2 header => header.version
  | .v4 header => .ofBitVec header.version

def getMagicNumber : IBlockHeader → UInt32
  | .v2 header => header.magicNumber
  | .v4 header => .ofBitVec header.magicNumber

def write (header : IBlockHeader) : ByteBuffer → Except Thrown UInt64 × ByteBuffer :=
  writeWords relative header.words

end IBlockHeader

end

/-- The buffer after some words were written. -/
def written (bb : ByteBuffer) (words : List UInt32) : ByteBuffer :=
  { bb with
    buf := bb.buf.write (bb.pos.toNat + bb.off.toNat)
      (words.flatMap fun word => Radix.bytes bb.byteOrder 4 word.toNat)
    pos := bb.pos + UInt64.ofNat (4 * words.length) }

/-- Writing some words after another. -/
theorem written_cons {bb : ByteBuffer} {word : UInt32} (rest : List UInt32)
    (next : (bb.pos + 4).toNat = bb.pos.toNat + 4) :
    written (written bb [word]) rest = written bb (word :: rest) := by
  have size : (Radix.bytes bb.byteOrder 4 word.toNat).length = 4 := Radix.bytes_length _ _ _
  have stored := bb.buf.write_append (bb.pos.toNat + bb.off.toNat)
    (Radix.bytes bb.byteOrder 4 word.toNat)
    (rest.flatMap fun word => Radix.bytes bb.byteOrder 4 word.toNat)
  have place : (bb.pos + 4).toNat + bb.off.toNat = bb.pos.toNat + bb.off.toNat + 4 := by
    rw [next]
    omega
  have moved : bb.pos + 4 + UInt64.ofNat (4 * rest.length) =
      bb.pos + UInt64.ofNat (4 * (rest.length + 1)) := by
    rw [Nat.mul_succ, UInt64.ofNat_add, UInt64.add_assoc, UInt64.add_comm 4]
    rfl
  rw [size] at stored
  simp only [written, List.flatMap_cons, List.flatMap_nil, List.append_nil, List.length_cons,
    List.length_nil]
  show ({ bb with
      buf := (bb.buf.write (bb.pos.toNat + bb.off.toNat)
        (Radix.bytes bb.byteOrder 4 word.toNat)).write ((bb.pos + 4).toNat + bb.off.toNat)
          (rest.flatMap fun word => Radix.bytes bb.byteOrder 4 word.toNat)
      pos := bb.pos + 4 + UInt64.ofNat (4 * rest.length) } : ByteBuffer) = _
  rw [place, stored, moved]

section

variable {relative : RelativeAccessors} (lawful : relative.Lawful) {bb : ByteBuffer}

include lawful

/-- Words that have room are written. -/
theorem putInts_eq (sound : bb.Sound) {words : List UInt32}
    (room : bb.pos.toNat + 4 * words.length ≤ bb.lim.toNat) :
    putInts relative bb words = (.ok (), written bb words) := by
  induction words generalizing bb with
  | nil => simp [putInts, written]
  | cons word rest inductionHypothesis =>
      have addressed := sound.addressed
      have limit := bb.lim.toNat_lt
      rw [List.length_cons] at room
      have size : (Radix.bytes bb.byteOrder 4 word.toNat).length = 4 := Radix.bytes_length _ _ _
      have next : (bb.pos + 4).toNat = bb.pos.toNat + 4 := by
        rw [UInt64.toNat_add]
        show (bb.pos.toNat + 4) % 2 ^ 64 = _
        omega
      have place : (bb.pos + bb.off).toNat = bb.pos.toNat + bb.off.toNat := by
        rw [UInt64.toNat_add]
        omega
      have fits : ¬ bb.lim < bb.pos + 4 := by
        rw [UInt64.lt_iff_toNat_lt, next]
        omega
      have one : relative.putInt bb word = .ok (written bb [word]) := by
        rw [lawful.putInt, ByteBuffer.writeRelative, size]
        show (if bb.lim < bb.pos + 4 then _ else _) = _
        rw [if_neg fits, place, written]
        simp
      have after : (written bb [word]).Sound := by
        constructor
        · rw [UInt64.le_iff_toNat_le]
          show (bb.pos + 4).toNat ≤ bb.lim.toNat
          rw [next]
          omega
        · exact addressed
      have tail := inductionHypothesis after (by
        show (bb.pos + 4).toNat + 4 * rest.length ≤ bb.lim.toNat
        rw [next]
        omega)
      rw [putInts, one]
      show putInts relative (written bb [word]) rest = _
      rw [tail, written_cons rest next]

/-- There is room for a header, or nothing is written. -/
theorem writeWords_eq (sound : bb.Sound) {words : List UInt32} (eight : words.length = 8) :
    writeWords relative words bb =
      if bb.lim.toNat < bb.pos.toNat + 32 then
        (.error (.overflowError "not enough room in buffer to write"), bb)
      else (.ok 32, written bb words) := by
  have inside := UInt64.le_iff_toNat_le.mp sound.inside
  have remaining : relative.remaining bb < 32 ↔ bb.lim.toNat < bb.pos.toNat + 32 := by
    rw [lawful.remaining bb sound.inside, UInt64.lt_iff_toNat_lt,
      UInt64.toNat_sub_of_le _ _ sound.inside]
    show bb.lim.toNat - bb.pos.toNat < 32 ↔ _
    omega
  rw [writeWords]
  by_cases short : bb.lim.toNat < bb.pos.toNat + 32
  · rw [if_pos short, if_pos (remaining.mpr short)]
  · rw [if_neg short, if_neg (mt remaining.mp short), putInts_eq lawful sound (by omega)]

end

/-! ### What was written is found -/

/-- The words of a header that was written, and where the probe finds them. -/
structure Found (accessors : Accessors) (after : ByteBuffer) (start : UInt64)
    (words : List UInt32) (version : UInt32) : Prop where
  words : ∀ index, (below : index < words.length) →
    accessors.getUInt after (start + UInt64.ofNat (4 * index)) = .ok words[index]
  probe : ∀ byteOrder, findEvioVersion accessors { after with byteOrder := byteOrder } start =
    (.ok (version &&& versionMask), after)

/-- The magic number does not read the same in both orders. -/
theorem not_magicIn_opposite {bb : ByteBuffer} {start : UInt64} {byteOrder : ByteOrder}
    (magic : bb.MagicIn start byteOrder) : ¬ bb.MagicIn start byteOrder.opposite := by
  unfold ByteBuffer.MagicIn at magic ⊢
  have size := Memory.read_length bb.buf (start + magicOffset + bb.off).toNat 4
  generalize bb.buf.read (start + magicOffset + bb.off).toNat 4 = stored at magic size ⊢
  have bytes := bytes_ofNat_four byteOrder size
  rw [magic] at bytes
  rw [← bytes]
  cases byteOrder <;> decide

section

variable {accessors : Accessors} (lawful : accessors.Lawful) {bb : ByteBuffer}

include lawful

theorem getUInt_written (sound : bb.Sound) {words : List UInt32} (eight : words.length = 8)
    (room : bb.pos.toNat + 32 ≤ bb.lim.toNat) {index : Nat} (below : index < words.length) :
    accessors.getUInt (written bb words) (bb.pos + UInt64.ofNat (4 * index)) =
      .ok words[index] := by
  have addressed := sound.addressed
  have limit := bb.lim.toNat_lt
  have offset : (UInt64.ofNat (4 * index)).toNat = 4 * index :=
    UInt64.toNat_ofNat_of_lt' (show 4 * index < 2 ^ 64 by omega)
  have place : (bb.pos + UInt64.ofNat (4 * index)).toNat = bb.pos.toNat + 4 * index := by
    rw [UInt64.toNat_add, offset]
    omega
  have address : (bb.pos + UInt64.ofNat (4 * index) + bb.off).toNat =
      bb.pos.toNat + bb.off.toNat + 4 * index := by
    rw [UInt64.toNat_add, place]
    omega
  have inside : bb.pos + UInt64.ofNat (4 * index) + 4 ≤ (written bb words).lim := by
    rw [UInt64.le_iff_toNat_le, UInt64.toNat_add, place]
    show (bb.pos.toNat + 4 * index + 4) % 2 ^ 64 ≤ bb.lim.toNat
    omega
  have stored := congrArg (fun list => list[index]?)
    (wordAt_toBytes bb.byteOrder words bb.buf (bb.pos.toNat + bb.off.toNat))
  simp only [List.getElem?_map, List.getElem?_range below, Option.map_some,
    List.getElem?_eq_getElem below, Option.some_inj] at stored
  rw [getUInt_inside lawful inside]
  show Except.ok (UInt32.ofNat (Radix.value bb.byteOrder
    ((written bb words).buf.read (bb.pos + UInt64.ofNat (4 * index) + bb.off).toNat 4))) = _
  rw [address]
  exact congrArg Except.ok stored

/-- A header that ends with the magic number is found. -/
theorem found_written (sound : bb.Sound) {words : List UInt32} (eight : words.length = 8)
    (room : bb.pos.toNat + 32 ≤ bb.lim.toNat) {version : UInt32}
    (isMagic : words[7] = Evio.magicNumber)
    (isVersion : words[5] &&& versionMask = version &&& versionMask) :
    Found accessors (written bb words) bb.pos words version where
  words := fun index below => getUInt_written lawful sound eight room below
  probe := by
    have inside := UInt64.le_iff_toNat_le.mp sound.inside
    have enough : ¬ (written bb words).lim - bb.pos < 32 := by
      show ¬ bb.lim - bb.pos < 32
      rw [UInt64.lt_iff_toNat_lt, UInt64.toNat_sub_of_le _ _ sound.inside]
      show ¬ bb.lim.toNat - bb.pos.toNat < 32
      omega
    have magicInside : bb.pos + magicOffset + 4 ≤ (written bb words).lim := by
      have limit := bb.lim.toNat_lt
      rw [word_inside_iff]
      show (bb.pos.toNat + 28 + 4) % 2 ^ 64 ≤ bb.lim.toNat
      omega
    have magic : (written bb words).MagicIn bb.pos bb.byteOrder := by
      have read := getUInt_written lawful sound eight room (show 7 < words.length by omega)
      rw [isMagic] at read
      exact Except.ok.inj ((getUInt_inside lawful magicInside).symm.trans read)
    have readBack : readVersion accessors (written bb words) bb.pos =
        .ok (version &&& versionMask) := by
      have read := getUInt_written lawful sound eight room (show 5 < words.length by omega)
      rw [readVersion, ← isVersion]
      show (accessors.getUInt (written bb words) (bb.pos + UInt64.ofNat (4 * 5))).bind _ = _
      rw [read]
      rfl
    intro byteOrder
    by_cases same : byteOrder = bb.byteOrder
    · subst same
      show findEvioVersion accessors (written bb words) bb.pos = _
      rw [findEvioVersion_current lawful enough magicInside magic, readBack]
    · have isOther : byteOrder = bb.byteOrder.opposite := by
        revert same
        cases byteOrder <;> cases bb.byteOrder <;> decide
      have restored : ({ written bb words with byteOrder := byteOrder } : ByteBuffer).flipped =
          written bb words := by
        rw [isOther, ByteBuffer.flipped, ByteOrder.opposite_opposite]
        rfl
      have back : ({ written bb words with byteOrder := byteOrder } : ByteBuffer).MagicIn bb.pos
          byteOrder.opposite := by
        rw [isOther, ByteOrder.opposite_opposite]
        exact magic
      have notThere : ¬ ({ written bb words with byteOrder := byteOrder } : ByteBuffer).MagicIn
          bb.pos byteOrder := by
        rw [isOther]
        exact not_magicIn_opposite magic
      have sameEnough : ¬ ({ written bb words with byteOrder := byteOrder } : ByteBuffer).lim -
          bb.pos < 32 := enough
      rw [findEvioVersion_other lawful sameEnough magicInside notThere back, restored, readBack]

end

/-- The position has moved behind the header, and nothing else has changed but the
bytes of the header. -/
structure Advanced (bb after : ByteBuffer) : Prop where
  pos : after.pos.toNat = bb.pos.toNat + 32
  rest : after = { bb with buf := after.buf, pos := after.pos }
  outside : ∀ address, address < bb.pos.toNat + bb.off.toNat ∨
    bb.pos.toNat + bb.off.toNat + 32 ≤ address → after.buf address = bb.buf address

theorem advanced_written {bb : ByteBuffer} {words : List UInt32} (eight : words.length = 8)
    (room : bb.pos.toNat + 32 ≤ bb.lim.toNat) : Advanced bb (written bb words) where
  pos := by
    have limit := bb.lim.toNat_lt
    show (bb.pos + UInt64.ofNat (4 * words.length)).toNat = _
    rw [eight, UInt64.toNat_add]
    show (bb.pos.toNat + 32) % 2 ^ 64 = _
    omega
  rest := rfl
  outside := by
    intro address outside
    apply Memory.write_outside
    have size : (words.flatMap fun word => Radix.bytes bb.byteOrder 4 word.toNat).length =
        4 * words.length := by
      have encoded := Radix.encode_length bb.byteOrder 4 (words.map UInt32.toNat)
      rw [Radix.encode, List.flatMap_map, List.length_map] at encoded
      exact encoded
    rw [size, eight]
    exact outside

/-- A buffer with room for one header, at an offset. -/
def sampleBuffer : ByteBuffer where
  buf := fun _ => 0
  off := 5
  pos := 4
  lim := 40
  byteOrder := .big

end Block

end Dift.Evio
