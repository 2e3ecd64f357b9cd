import Dift.Wire.HostOrder

/-!
Owns the class `ByteBuffer` as far as its absolute reads and writes of 32-bit words
go, and `Util::findEvioVersion`. The header of the class has the templates that
check the limit; the members that call them, for the byte order of the buffer, are
a parameter with laws. The probe for the byte order leaves the buffer alone on a
failure exactly when there is nothing to probe or the probe succeeds.
-/

namespace Dift.Evio

open Dift.Foundation
open Dift.Wire

/-- An exception by its class and text. -/
inductive Thrown where
  | underflowError (what : String)
  | overflowError (what : String)
  | evioException (what : String)
deriving DecidableEq, Repr

/-- The fields of the class that reads and writes depend on. -/
structure ByteBuffer where
  buf : Mem
  off : UInt64
  pos : UInt64
  lim : UInt64
  byteOrder : ByteOrder

namespace ByteBuffer

/-- The template for absolute reads. The sum of the check wraps around. -/
def read (buffer : ByteBuffer) (sizeof index : UInt64) : Except Thrown (List UInt8) :=
  if index + sizeof ≤ buffer.lim then
    .ok (buffer.buf.read (index + buffer.off).toNat sizeof.toNat)
  else .error (.underflowError "buffer underflow")

/-- The template for absolute writes. -/
def write (buffer : ByteBuffer) (data : List UInt8) (index : UInt64) :
    Except Thrown ByteBuffer :=
  if index + UInt64.ofNat data.length > buffer.lim then
    .error (.overflowError "buffer overflow")
  else .ok { buffer with buf := buffer.buf.write (index + buffer.off).toNat data }

end ByteBuffer

/-- The members whose bodies are not in the repository. -/
structure Accessors where
  getInt : ByteBuffer → UInt64 → Except Thrown Int32
  getUInt : ByteBuffer → UInt64 → Except Thrown UInt32
  putInt : ByteBuffer → UInt64 → UInt32 → Except Thrown ByteBuffer
  order : ByteBuffer → ByteOrder → ByteBuffer

namespace Accessors

/-- The members read and write through the templates, in the byte order of the
buffer, and setting the order sets nothing else. -/
structure Lawful (accessors : Accessors) : Prop where
  getInt : ∀ buffer index, accessors.getInt buffer index = (buffer.read 4 index).map fun stored =>
    (UInt32.ofNat (Radix.value buffer.byteOrder stored)).toInt32
  getUInt : ∀ buffer index, accessors.getUInt buffer index =
    (buffer.read 4 index).map fun stored => UInt32.ofNat (Radix.value buffer.byteOrder stored)
  putInt : ∀ buffer index val, accessors.putInt buffer index val =
    buffer.write (Radix.bytes buffer.byteOrder 4 val.toNat) index
  order : ∀ buffer byteOrder, accessors.order buffer byteOrder =
    { buffer with byteOrder := byteOrder }

/-- The members as the templates give them. -/
def templates : Accessors where
  getInt buffer index := (buffer.read 4 index).map fun stored =>
    (UInt32.ofNat (Radix.value buffer.byteOrder stored)).toInt32
  getUInt buffer index := (buffer.read 4 index).map fun stored =>
    UInt32.ofNat (Radix.value buffer.byteOrder stored)
  putInt buffer index val := buffer.write (Radix.bytes buffer.byteOrder 4 val.toNat) index
  order buffer byteOrder := { buffer with byteOrder := byteOrder }

theorem templates_lawful : templates.Lawful where
  getInt _ _ := rfl
  getUInt _ _ := rfl
  putInt _ _ _ := rfl
  order _ _ := rfl

end Accessors

/-! ### The probe -/

/-- `IBlockHeader::MAGIC_NUMBER`. -/
def magicNumber : UInt32 := 0xc0da0100

/-- `IBlockHeader::MAGIC_OFFSET`. -/
def magicOffset : UInt64 := 28

/-- `IBlockHeader::BIT_INFO_OFFSET`. -/
def bitInfoOffset : UInt64 := 20

/-- `IBlockHeader::VERSION_MASK`. -/
def versionMask : UInt32 := 0xff

section

variable (accessors : Accessors)

/-- The end of `findEvioVersion`. -/
def readVersion (bb : ByteBuffer) (initialPos : UInt64) : Except Thrown UInt32 := do
  let bitInfo ← accessors.getUInt bb (initialPos + bitInfoOffset)
  return bitInfo &&& versionMask

/-- The buffer is returned as it is left, also by an exception. -/
def findEvioVersion (bb : ByteBuffer) (initialPos : UInt64) :
    Except Thrown UInt32 × ByteBuffer :=
  if bb.lim - initialPos < 32 then
    (.error (.underflowError "not enough data to read in header"), bb)
  else
    match accessors.getUInt bb (initialPos + magicOffset) with
    | .error thrown => (.error thrown, bb)
    | .ok number =>
        if number ≠ magicNumber then
          let byteOrder : ByteOrder := if bb.byteOrder = .big then .little else .big
          let bb := accessors.order bb byteOrder
          match accessors.getInt bb (initialPos + magicOffset) with
          | .error thrown => (.error thrown, bb)
          | .ok number =>
              if number.toUInt32 ≠ magicNumber then
                (.error (.evioException
                  ("magic number is bad, " ++ toString number.toUInt32.toNat)), bb)
              else (readVersion accessors bb initialPos, bb)
        else (readVersion accessors bb initialPos, bb)

end

namespace ByteBuffer

/-- The magic number stands at its place in this byte order. -/
def MagicIn (bb : ByteBuffer) (initialPos : UInt64) (byteOrder : ByteOrder) : Prop :=
  UInt32.ofNat (Radix.value byteOrder
    (bb.buf.read (initialPos + magicOffset + bb.off).toNat 4)) = magicNumber

instance (bb : ByteBuffer) (initialPos : UInt64) (byteOrder : ByteOrder) :
    Decidable (bb.MagicIn initialPos byteOrder) :=
  inferInstanceAs (Decidable (_ = _))

/-- The buffer with the other byte order. -/
def flipped (bb : ByteBuffer) : ByteBuffer :=
  { bb with byteOrder := bb.byteOrder.opposite }

end ByteBuffer

section

variable {accessors : Accessors} (lawful : accessors.Lawful)

include lawful

theorem getUInt_outside {bb : ByteBuffer} {index : UInt64} (outside : ¬ index + 4 ≤ bb.lim) :
    accessors.getUInt bb index = .error (.underflowError "buffer underflow") := by
  rw [lawful.getUInt, ByteBuffer.read, if_neg outside]
  rfl

theorem getUInt_inside {bb : ByteBuffer} {index : UInt64} (inside : index + 4 ≤ bb.lim) :
    accessors.getUInt bb index =
      .ok (UInt32.ofNat (Radix.value bb.byteOrder (bb.buf.read (index + bb.off).toNat 4))) := by
  rw [lawful.getUInt, ByteBuffer.read, if_pos inside]
  rfl

theorem getInt_inside {bb : ByteBuffer} {index : UInt64} (inside : index + 4 ≤ bb.lim) :
    accessors.getInt bb index =
      .ok (UInt32.ofNat
        (Radix.value bb.byteOrder (bb.buf.read (index + bb.off).toNat 4))).toInt32 := by
  rw [lawful.getInt, ByteBuffer.read, if_pos inside]
  rfl

/-- The magic number is read in the order in which it stands. -/
theorem getUInt_magic {bb : ByteBuffer} {initialPos : UInt64}
    (inside : initialPos + magicOffset + 4 ≤ bb.lim)
    (magic : bb.MagicIn initialPos bb.byteOrder) :
    accessors.getUInt bb (initialPos + magicOffset) = .ok magicNumber := by
  rw [getUInt_inside lawful inside]
  exact congrArg Except.ok magic

theorem order_flipped (bb : ByteBuffer) :
    accessors.order bb (if bb.byteOrder = .big then .little else .big) = bb.flipped := by
  rw [lawful.order, ByteBuffer.flipped]
  cases bb.byteOrder <;> rfl

/-- Where the probe leaves off. -/
theorem findEvioVersion_short {bb : ByteBuffer} {initialPos : UInt64}
    (short : bb.lim - initialPos < 32 ∨ ¬ initialPos + magicOffset + 4 ≤ bb.lim) :
    ∃ thrown, findEvioVersion accessors bb initialPos = (.error thrown, bb) := by
  by_cases tooShort : bb.lim - initialPos < 32
  · exact ⟨_, if_pos tooShort⟩
  · rw [findEvioVersion, if_neg tooShort,
      getUInt_outside lawful (short.resolve_left tooShort)]
    exact ⟨_, rfl⟩

theorem findEvioVersion_current {bb : ByteBuffer} {initialPos : UInt64}
    (enough : ¬ bb.lim - initialPos < 32) (inside : initialPos + magicOffset + 4 ≤ bb.lim)
    (magic : bb.MagicIn initialPos bb.byteOrder) :
    findEvioVersion accessors bb initialPos = (readVersion accessors bb initialPos, bb) := by
  rw [findEvioVersion, if_neg enough, getUInt_inside lawful inside]
  exact if_neg (not_not.mpr magic)

/-- The second look, at the number in the other order. -/
theorem findEvioVersion_again {bb : ByteBuffer} {initialPos : UInt64}
    (enough : ¬ bb.lim - initialPos < 32) (inside : initialPos + magicOffset + 4 ≤ bb.lim)
    (notCurrent : ¬ bb.MagicIn initialPos bb.byteOrder) :
    ∃ thrown, findEvioVersion accessors bb initialPos =
      (if bb.MagicIn initialPos bb.byteOrder.opposite then
        readVersion accessors bb.flipped initialPos else .error thrown, bb.flipped) := by
  have insideToo : initialPos + magicOffset + 4 ≤ bb.flipped.lim := inside
  have reread := getInt_inside lawful insideToo
  rw [findEvioVersion, if_neg enough, getUInt_inside lawful inside]
  simp only [order_flipped lawful]
  rw [reread]
  apply Exists.intro _
  apply (if_pos notCurrent).trans
  by_cases magic : bb.MagicIn initialPos bb.byteOrder.opposite
  · rw [if_pos magic]
    exact if_neg (not_not.mpr magic)
  · rw [if_neg magic]
    exact if_pos magic

theorem findEvioVersion_other {bb : ByteBuffer} {initialPos : UInt64}
    (enough : ¬ bb.lim - initialPos < 32) (inside : initialPos + magicOffset + 4 ≤ bb.lim)
    (notCurrent : ¬ bb.MagicIn initialPos bb.byteOrder)
    (magic : bb.MagicIn initialPos bb.byteOrder.opposite) :
    findEvioVersion accessors bb initialPos =
      (readVersion accessors bb.flipped initialPos, bb.flipped) := by
  obtain ⟨thrown, again⟩ := findEvioVersion_again lawful enough inside notCurrent
  rw [again, if_pos magic]

theorem findEvioVersion_neither {bb : ByteBuffer} {initialPos : UInt64}
    (enough : ¬ bb.lim - initialPos < 32) (inside : initialPos + magicOffset + 4 ≤ bb.lim)
    (notCurrent : ¬ bb.MagicIn initialPos bb.byteOrder)
    (notOther : ¬ bb.MagicIn initialPos bb.byteOrder.opposite) :
    ∃ thrown, findEvioVersion accessors bb initialPos = (.error thrown, bb.flipped) := by
  obtain ⟨thrown, again⟩ := findEvioVersion_again lawful enough inside notCurrent
  rw [again, if_neg notOther]
  exact ⟨thrown, rfl⟩

theorem readVersion_inside {bb : ByteBuffer} {initialPos : UInt64}
    (inside : initialPos + bitInfoOffset + 4 ≤ bb.lim) :
    ∃ version, readVersion accessors bb initialPos = .ok version := by
  rw [readVersion, getUInt_inside lawful inside]
  exact ⟨_, rfl⟩

theorem readVersion_outside {bb : ByteBuffer} {initialPos : UInt64}
    (outside : ¬ initialPos + bitInfoOffset + 4 ≤ bb.lim) :
    ∃ thrown, readVersion accessors bb initialPos = .error thrown := by
  rw [readVersion, getUInt_outside lawful outside]
  exact ⟨_, rfl⟩

end

/-! ### When the buffer is left alone -/

/-- After an exception the buffer is as it was. After a return only the byte order
may be another, the magic number reads correctly in it, and the header was there. -/
def LeavesAlone (accessors : Accessors) (bb : ByteBuffer) (initialPos : UInt64) : Prop :=
  match findEvioVersion accessors bb initialPos with
  | (.error _, after) => after = bb
  | (.ok _, after) =>
      (∃ byteOrder, after = { bb with byteOrder := byteOrder }) ∧
        accessors.getUInt after (initialPos + magicOffset) = .ok magicNumber ∧
        initialPos.toNat + 32 ≤ bb.lim.toNat

/-- What has to hold of the buffer for that. Below the limit there is too little to
read or the magic number is there. Above it the length of what is left wraps around:
either it is too short all the same, or a word of the header is out of bounds before
the order is changed. -/
def Probed (bb : ByteBuffer) (initialPos : UInt64) : Prop :=
  if initialPos.toNat ≤ bb.lim.toNat then
    bb.lim.toNat - initialPos.toNat < 32 ∨ bb.MagicIn initialPos bb.byteOrder ∨
      bb.MagicIn initialPos bb.byteOrder.opposite
  else
    initialPos.toNat + 32 < 2 ^ 64 ∨ bb.lim.toNat + 2 ^ 64 < initialPos.toNat + 32 ∨
      initialPos.toNat + 24 < 2 ^ 64 ∧ bb.MagicIn initialPos bb.byteOrder

section

variable {accessors : Accessors} (lawful : accessors.Lawful) {bb : ByteBuffer}
  {initialPos : UInt64}

theorem flipped_ne : bb.flipped ≠ bb := by
  intro same
  have orders : bb.byteOrder.opposite = bb.byteOrder := congrArg ByteBuffer.byteOrder same
  revert orders
  cases bb.byteOrder <;> decide

include lawful

theorem leavesAlone_of_short
    (short : bb.lim - initialPos < 32 ∨ ¬ initialPos + magicOffset + 4 ≤ bb.lim) :
    LeavesAlone accessors bb initialPos := by
  obtain ⟨thrown, failed⟩ := findEvioVersion_short lawful short
  rw [LeavesAlone, failed]

/-- The order stays, so that only a return can be wrong. -/
theorem leavesAlone_current_iff (enough : ¬ bb.lim - initialPos < 32)
    (inside : initialPos + magicOffset + 4 ≤ bb.lim)
    (magic : bb.MagicIn initialPos bb.byteOrder) :
    LeavesAlone accessors bb initialPos ↔
      (initialPos + bitInfoOffset + 4 ≤ bb.lim → initialPos.toNat + 32 ≤ bb.lim.toNat) := by
  rw [LeavesAlone, findEvioVersion_current lawful enough inside magic]
  by_cases bitInfo : initialPos + bitInfoOffset + 4 ≤ bb.lim
  · obtain ⟨version, returned⟩ := readVersion_inside lawful bitInfo
    rw [returned]
    constructor
    · intro alone _
      exact alone.2.2
    · intro available
      exact ⟨⟨bb.byteOrder, rfl⟩, getUInt_magic lawful inside magic, available bitInfo⟩
  · obtain ⟨thrown, failed⟩ := readVersion_outside lawful bitInfo
    rw [failed]
    exact iff_of_true rfl fun inside => absurd inside bitInfo

/-- The order is changed, so that the call has to return. -/
theorem leavesAlone_other_iff (enough : ¬ bb.lim - initialPos < 32)
    (inside : initialPos + magicOffset + 4 ≤ bb.lim)
    (notCurrent : ¬ bb.MagicIn initialPos bb.byteOrder)
    (magic : bb.MagicIn initialPos bb.byteOrder.opposite) :
    LeavesAlone accessors bb initialPos ↔
      initialPos + bitInfoOffset + 4 ≤ bb.lim ∧ initialPos.toNat + 32 ≤ bb.lim.toNat := by
  rw [LeavesAlone, findEvioVersion_other lawful enough inside notCurrent magic]
  by_cases bitInfo : initialPos + bitInfoOffset + 4 ≤ bb.lim
  · have same : initialPos + bitInfoOffset + 4 ≤ bb.flipped.lim := bitInfo
    obtain ⟨version, returned⟩ := readVersion_inside lawful same
    have number : accessors.getUInt bb.flipped (initialPos + magicOffset) = .ok magicNumber :=
      getUInt_magic lawful inside magic
    rw [returned]
    constructor
    · intro alone
      exact ⟨bitInfo, alone.2.2⟩
    · intro available
      exact ⟨⟨bb.byteOrder.opposite, rfl⟩, number, available.2⟩
  · have same : ¬ initialPos + bitInfoOffset + 4 ≤ bb.flipped.lim := bitInfo
    obtain ⟨thrown, failed⟩ := readVersion_outside lawful same
    rw [failed]
    exact iff_of_false flipped_ne fun both => bitInfo both.1

theorem not_leavesAlone_neither (enough : ¬ bb.lim - initialPos < 32)
    (inside : initialPos + magicOffset + 4 ≤ bb.lim)
    (notCurrent : ¬ bb.MagicIn initialPos bb.byteOrder)
    (notOther : ¬ bb.MagicIn initialPos bb.byteOrder.opposite) :
    ¬ LeavesAlone accessors bb initialPos := by
  obtain ⟨thrown, failed⟩ := findEvioVersion_neither lawful enough inside notCurrent notOther
  rw [LeavesAlone, failed]
  exact flipped_ne

end

theorem short_iff (bb : ByteBuffer) (initialPos : UInt64) :
    bb.lim - initialPos < 32 ↔ (2 ^ 64 - initialPos.toNat + bb.lim.toNat) % 2 ^ 64 < 32 := by
  rw [UInt64.lt_iff_toNat_lt, UInt64.toNat_sub]
  rfl

theorem word_inside_iff (bb : ByteBuffer) (initialPos offset : UInt64) :
    initialPos + offset + 4 ≤ bb.lim ↔
      (initialPos.toNat + offset.toNat + 4) % 2 ^ 64 ≤ bb.lim.toNat := by
  rw [UInt64.le_iff_toNat_le, UInt64.toNat_add, UInt64.toNat_add, Nat.mod_add_mod]
  rfl

theorem leavesAlone_iff {accessors : Accessors} (lawful : accessors.Lawful) (bb : ByteBuffer)
    (initialPos : UInt64) : LeavesAlone accessors bb initialPos ↔ Probed bb initialPos := by
  have position : initialPos.toNat < 2 ^ 64 := initialPos.toNat_lt
  have limit : bb.lim.toNat < 2 ^ 64 := bb.lim.toNat_lt
  have shortIff := short_iff bb initialPos
  have magicIff := word_inside_iff bb initialPos magicOffset
  have bitInfoIff := word_inside_iff bb initialPos bitInfoOffset
  rw [show magicOffset.toNat = 28 from rfl] at magicIff
  rw [show bitInfoOffset.toNat = 20 from rfl] at bitInfoIff
  unfold Probed
  by_cases short : bb.lim - initialPos < 32 ∨ ¬ initialPos + magicOffset + 4 ≤ bb.lim
  · apply iff_of_true (leavesAlone_of_short lawful short)
    rw [shortIff, magicIff] at short
    split_ifs <;> omega
  · obtain ⟨enough, inside⟩ := not_or.mp short
    rw [not_not] at inside
    have enoughNat := mt shortIff.mpr enough
    have insideNat := magicIff.mp inside
    by_cases current : bb.MagicIn initialPos bb.byteOrder
    · rw [leavesAlone_current_iff lawful enough inside current, bitInfoIff]
      split_ifs with below
      · exact iff_of_true (fun _ => by omega) (.inr (.inl current))
      · simp only [current, and_true]
        omega
    · by_cases other : bb.MagicIn initialPos bb.byteOrder.opposite
      · rw [leavesAlone_other_iff lawful enough inside current other, bitInfoIff]
        split_ifs with below
        · exact iff_of_true (by omega) (.inr (.inr other))
        · simp only [current, and_false, or_false]
          omega
      · apply iff_of_false (not_leavesAlone_neither lawful enough inside current other)
        simp only [current, other, and_false, or_false]
        split_ifs <;> omega

/-- A header with the magic number in the order that the buffer does not have. -/
def sampleHeader : ByteBuffer where
  buf := Memory.write (fun _ => 4) 28 [0xc0, 0xda, 0x01, 0x00]
  off := 0
  pos := 0
  lim := 32
  byteOrder := .little

theorem leavesAlone_iff_sampleHeader :
    Accessors.templates.Lawful ∧ LeavesAlone .templates sampleHeader 0 :=
  ⟨Accessors.templates_lawful,
    (leavesAlone_iff Accessors.templates_lawful sampleHeader 0).mpr (by unfold Probed; decide)⟩

/-- Without the magic number the exception leaves the other order behind. From a
position 20 bytes before the largest one, the probe goes round and returns although
nothing of the header is in the buffer. -/
theorem not_leavesAlone_wrapped :
    ((findEvioVersion .templates { sampleHeader with buf := fun _ => 0 } 0).1 =
        .error (.evioException "magic number is bad, 0") ∧
      (findEvioVersion .templates { sampleHeader with buf := fun _ => 0 } 0).2.byteOrder = .big ∧
      ¬ LeavesAlone .templates { sampleHeader with buf := fun _ => 0 } 0) ∧
    ((findEvioVersion .templates
        { sampleHeader with buf := Memory.write (fun _ => 4) 8 [0x00, 0x01, 0xda, 0xc0], lim := 12 }
        0xffffffffffffffec).1 = .ok 4 ∧
      ¬ LeavesAlone .templates
        { sampleHeader with buf := Memory.write (fun _ => 4) 8 [0x00, 0x01, 0xda, 0xc0], lim := 12 }
        0xffffffffffffffec) := by
  refine ⟨⟨by decide, by decide, ?_⟩, by decide, ?_⟩
  · intro alone
    exact absurd ((leavesAlone_iff Accessors.templates_lawful _ _).mp alone)
      (by unfold Probed; decide)
  · intro alone
    exact absurd ((leavesAlone_iff Accessors.templates_lawful _ _).mp alone)
      (by unfold Probed; decide)

end Dift.Evio
