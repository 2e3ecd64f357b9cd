import Dift.Evio.Structures
import Dift.Evio.Tree

/-!
Owns `StructureTransformer`: making a bank of a segment and back, and the six
ways to copy a structure of one kind into one of another. The length in a header
leaves out the word that holds it, so that of a bank is one more than the words
of its data and that of a segment or tagsegment is their number. What headers
and `BaseStructure` do themselves is a parameter with the laws that are relied
on.
-/

namespace Dift.Evio

namespace Transformer

/-- The fields of a header. -/
@[ext]
structure Header where
  length : UInt32
  tag : UInt32
  dataType : DataType
  padding : UInt8
  number : UInt8
deriving DecidableEq, Repr

def Header.getTag (header : Header) : UInt16 := header.tag.toUInt16

/-- A structure: its header, whatever it keeps as data, and its children. -/
@[ext]
structure Structure (Data Child : Type*) where
  header : Header
  data : Data
  children : List Child

/-- The words of data that a length stands for; a bank has a second header
word. -/
def dataWords (kind : Kind) (length : UInt32) : UInt32 :=
  match kind with
  | .bank => length - 1
  | .segment | .tagsegment => length

/-- What the transformations call: the constructors of headers and structures,
`BaseStructureHeader::copy` and `BaseStructure::transform`, each with the object
it is called on first. The transform leaves both structures in some state. -/
structure Library (Data Child : Type*) where
  bankHeader : UInt16 → DataType → UInt8 → Header
  segmentHeader : UInt16 → DataType → Header
  construct : Header → Structure Data Child
  copy : Header → Header → Header
  transform : Structure Data Child → Structure Data Child →
    Structure Data Child × Structure Data Child

/-- What is relied on. A transform may compute the padding anew, so that it is
kept only where it is that of the structure transformed from. -/
structure Library.Documented {Data Child : Type*} (library : Library Data Child) : Prop where
  bankHeader : ∀ tag dataType number, (library.bankHeader tag dataType number).getTag = tag ∧
    (library.bankHeader tag dataType number).dataType = dataType ∧
    (library.bankHeader tag dataType number).number = number
  segmentHeader : ∀ tag dataType, (library.segmentHeader tag dataType).getTag = tag ∧
    (library.segmentHeader tag dataType).dataType = dataType
  construct : ∀ header, (library.construct header).header = header
  copy : ∀ mine other, library.copy mine other = other
  data : ∀ mine other, (library.transform mine other).1.data = other.data
  children : ∀ mine other, (library.transform mine other).1.children = other.children
  length : ∀ mine other, (library.transform mine other).1.header.length = mine.header.length
  tag : ∀ mine other, (library.transform mine other).1.header.tag = mine.header.tag
  dataType : ∀ mine other, (library.transform mine other).1.header.dataType = mine.header.dataType
  number : ∀ mine other, (library.transform mine other).1.header.number = mine.header.number
  padding : ∀ mine other, mine.header.padding = other.header.padding →
    (library.transform mine other).1.header.padding = mine.header.padding
  source : ∀ mine other, (library.transform mine other).2 = other

variable {Data Child : Type*} (library : Library Data Child)

/-! ### Segment to bank and back -/

/-- `transform` of a segment into a bank. -/
def transformSegment (segment : Structure Data Child) (num : UInt8) : Structure Data Child :=
  let segHeader := segment.header
  let bank := library.construct (library.bankHeader segHeader.getTag segHeader.dataType num)
  let bankHeader := { bank.header with
    length := segHeader.length + 1
    padding := segHeader.padding }
  (library.transform { bank with header := bankHeader } segment).1

/-- `transform` of a bank into a segment. -/
def transformBank (bank : Structure Data Child) : Except String (Structure Data Child) :=
  let bankHeader := bank.header
  let bankLen := bankHeader.length.toUInt64
  if bankLen > 65535 then .error "Bank is too long to transform into segment"
  else
    let segment := library.construct (library.segmentHeader bankHeader.getTag bankHeader.dataType)
    let segHeader := { segment.header with
      length := (bankLen - 1).toUInt32
      padding := bankHeader.padding
      number := bankHeader.number }
    .ok (library.transform { segment with header := segHeader } bank).1

/-- The bank made of a segment becomes a segment with the same contents. -/
structure RoundTrips (segment : Structure Data Child) (num : UInt8)
    (back : Structure Data Child) : Prop where
  returns : transformBank library (transformSegment library segment num) = .ok back
  tag : back.header.getTag = segment.header.getTag
  dataType : back.header.dataType = segment.header.dataType
  padding : back.header.padding = segment.header.padding
  length : back.header.length = segment.header.length
  data : back.data = segment.data
  children : back.children = segment.children

variable {library} (documented : library.Documented)

include documented

theorem transformSegment_length (segment : Structure Data Child) (num : UInt8) :
    (transformSegment library segment num).header.length = segment.header.length + 1 := by
  rw [transformSegment, documented.length]

theorem transformSegment_padding (segment : Structure Data Child) (num : UInt8) :
    (transformSegment library segment num).header.padding = segment.header.padding := by
  exact documented.padding _ segment rfl

theorem transformSegment_getTag (segment : Structure Data Child) (num : UInt8) :
    (transformSegment library segment num).header.getTag = segment.header.getTag := by
  rw [transformSegment, Header.getTag, documented.tag, documented.construct]
  exact (documented.bankHeader _ _ _).1

theorem transformSegment_dataType (segment : Structure Data Child) (num : UInt8) :
    (transformSegment library segment num).header.dataType = segment.header.dataType := by
  rw [transformSegment, documented.dataType, documented.construct]
  exact (documented.bankHeader _ _ _).2.1

/-- A bank that is short enough becomes a segment with its contents. -/
theorem transformBank_short (bank : Structure Data Child)
    (short : ¬ bank.header.length.toUInt64 > 65535) :
    ∃ segment, transformBank library bank = .ok segment ∧
      segment.header.getTag = bank.header.getTag ∧
      segment.header.dataType = bank.header.dataType ∧
      segment.header.padding = bank.header.padding ∧
      segment.header.length = (bank.header.length.toUInt64 - 1).toUInt32 ∧
      segment.data = bank.data ∧ segment.children = bank.children := by
  rw [transformBank, if_neg short]
  refine ⟨_, rfl, ?_, ?_, ?_, ?_, ?_, ?_⟩
  · rw [Header.getTag, documented.tag, documented.construct]
    exact (documented.segmentHeader _ _).1
  · rw [documented.dataType, documented.construct]
    exact (documented.segmentHeader _ _).2
  · exact documented.padding _ bank rfl
  · rw [documented.length]
  · rw [documented.data]
  · rw [documented.children]

omit documented in
/-- A segment's length leaves room for the bank's second header word. -/
theorem toNat_length_succ {length : UInt32} (fits : length ≤ 65535) :
    (length + 1).toNat = length.toNat + 1 := by
  have small : length.toNat ≤ 65535 := UInt32.le_iff_toNat_le.mp fits
  rw [UInt32.toNat_add, UInt32.toNat_one]
  omega

omit documented in
/-- The length of the bank is within the limit exactly below the greatest length
of a segment. -/
theorem bankLen_le_iff {length : UInt32} (fits : length ≤ 65535) :
    (¬ (length + 1).toUInt64 > 65535) ↔ length ≤ 65534 := by
  rw [gt_iff_lt, UInt64.lt_iff_toNat_lt, UInt32.le_iff_toNat_le, UInt32.toNat_toUInt64,
    toNat_length_succ fits]
  show ¬ 65535 < length.toNat + 1 ↔ length.toNat ≤ 65534
  omega

omit documented in
theorem length_back {length : UInt32} (fits : length ≤ 65535) :
    ((length + 1).toUInt64 - 1).toUInt32 = length := by
  have small : length.toNat ≤ 65535 := UInt32.le_iff_toNat_le.mp fits
  apply UInt32.toNat_inj.mp
  rw [UInt64.toNat_toUInt32, UInt64.toNat_sub, UInt32.toNat_toUInt64, toNat_length_succ fits]
  show (2 ^ 64 - 1 + (length.toNat + 1)) % 2 ^ 64 % 2 ^ 32 = length.toNat
  omega

/-- A segment becomes a bank and a segment again unless it has the greatest
length. -/
theorem transform_roundTrips_iff (segment : Structure Data Child) (num : UInt8)
    (fits : segment.header.length ≤ 65535) :
    (∃ back, RoundTrips library segment num back) ↔ segment.header.length ≤ 65534 := by
  have length := transformSegment_length documented segment num
  constructor
  · intro exists_back
    obtain ⟨back, trip⟩ := exists_back
    have returns := trip.returns
    by_contra long
    rw [transformBank, length, if_pos (by
      by_contra short
      exact long ((bankLen_le_iff fits).mp short))] at returns
    cases returns
  · intro short
    have within : ¬ (transformSegment library segment num).header.length.toUInt64 > 65535 := by
      rw [length]
      exact (bankLen_le_iff fits).mpr short
    rcases transformBank_short documented _ within with
      ⟨back, returns, tag, dataType, padding, backLength, data, children⟩
    refine ⟨back, returns, ?_, ?_, ?_, ?_, ?_, ?_⟩
    · rw [tag, transformSegment_getTag documented]
    · rw [dataType, transformSegment_dataType documented]
    · rw [padding, transformSegment_padding documented]
    · rw [backLength, length, length_back fits]
    · rw [data, transformSegment, documented.data]
    · rw [children, transformSegment, documented.children]

omit documented

/-- Headers and structures that store what they are given, with bytes as data. -/
def sampleLibrary : Library (List UInt8) Unit where
  bankHeader := fun tag dataType number => ⟨0, tag.toUInt32, dataType, 0, number⟩
  segmentHeader := fun tag dataType => ⟨0, tag.toUInt32, dataType, 0, 0⟩
  construct := fun header => ⟨header, [], []⟩
  copy := fun _ other => other
  transform := fun mine other =>
    ({ mine with data := other.data, children := other.children }, other)

theorem sampleLibrary_documented : sampleLibrary.Documented where
  bankHeader := fun tag _ _ => ⟨by simp [Header.getTag, sampleLibrary], rfl, rfl⟩
  segmentHeader := fun tag _ => ⟨by simp [Header.getTag, sampleLibrary], rfl⟩
  construct := fun _ => rfl
  copy := fun _ _ => rfl
  data := fun _ _ => rfl
  children := fun _ _ => rfl
  length := fun _ _ => rfl
  tag := fun _ _ => rfl
  dataType := fun _ _ => rfl
  number := fun _ _ => rfl
  padding := fun _ _ _ => rfl
  source := fun _ _ => rfl

/-- A segment of so many words of zeros. -/
def zeros (words : Nat) : Structure (List UInt8) Unit :=
  ⟨⟨UInt32.ofNat words, 3, .uint32, 0, 0⟩, List.replicate (4 * words) 0, []⟩

theorem transform_roundTrips_iff_sample :
    (∃ back, RoundTrips sampleLibrary (zeros 2) 1 back) ↔ (zeros 2).header.length ≤ 65534 :=
  transform_roundTrips_iff sampleLibrary_documented (zeros 2) 1 (by decide)

/-- A segment of the greatest length makes a bank that is refused. -/
theorem not_roundTrips_longest :
    (zeros 65535).header.length ≤ 65535 ∧
      ¬ ∃ back, RoundTrips sampleLibrary (zeros 65535) 1 back := by
  refine ⟨by decide, ?_⟩
  intro exists_back
  obtain ⟨back, trip⟩ := exists_back
  have refused : transformBank sampleLibrary (transformSegment sampleLibrary (zeros 65535) 1) =
      .error "Bank is too long to transform into segment" := rfl
  rw [trip.returns] at refused
  cases refused

/-! ### Copying -/

variable (library)

/-- The two structures of a copy. -/
structure Objects (Data Child : Type*) where
  dest : Structure Data Child
  src : Structure Data Child

/-- `copy` of a segment into a bank. -/
def copySegmentIntoBank (num : UInt8) (objects : Objects Data Child) : Objects Data Child :=
  let segHeader := objects.src.header
  let bankHeader := { library.copy objects.dest.header segHeader with
    number := num
    length := segHeader.length + 1
    padding := segHeader.padding }
  let after := library.transform { objects.dest with header := bankHeader } objects.src
  ⟨after.1, after.2⟩

/-- `copy` of a tagsegment into a bank. -/
def copyTagsegmentIntoBank (num : UInt8) (objects : Objects Data Child) : Objects Data Child :=
  let tagsegHeader := objects.src.header
  let bankHeader := { library.copy objects.dest.header tagsegHeader with
    number := num
    length := tagsegHeader.length + 1 }
  let after := library.transform { objects.dest with header := bankHeader } objects.src
  ⟨after.1, after.2⟩

/-- The 4-bit type that stands for a 6-bit one: where the given type is `BANK`
or `SEGMENT`, the type in the header is set to `ALSOBANK` or `ALSOSEGMENT`. -/
def setDataType (header : Header) (given : DataType) : Header :=
  if given = .bank then { header with dataType := .alsobank }
  else if given = .segment then { header with dataType := .alsosegment }
  else header

/-- `copy` of a segment into a tagsegment. -/
def copySegmentIntoTagsegment (objects : Objects Data Child) : Objects Data Child :=
  let segHeader := objects.src.header
  let tsHeader := setDataType (library.copy objects.dest.header segHeader) segHeader.dataType
  let after := library.transform { objects.dest with header := tsHeader } objects.src
  ⟨after.1, after.2⟩

/-- `copy` of a tagsegment into a segment, both of them declared as segments. The
transform is called on the source. -/
def copyTagsegmentIntoSegment (objects : Objects Data Child) : Objects Data Child :=
  let tsHeader := objects.src.header
  let segHeader := library.copy objects.dest.header tsHeader
  let after := library.transform objects.src { objects.dest with header := segHeader }
  ⟨after.2, after.1⟩

/-- `copy` of a bank into a segment. -/
def copyBankIntoSegment (objects : Objects Data Child) : Except String (Objects Data Child) :=
  let bankHeader := objects.src.header
  let bankLen := bankHeader.length.toUInt64
  if bankLen > 65535 then .error "Bank is too long to transform into segment"
  else
    let segHeader := { library.copy objects.dest.header bankHeader with
      length := (bankLen - 1).toUInt32 }
    let after := library.transform { objects.dest with header := segHeader } objects.src
    .ok ⟨after.1, after.2⟩

/-- `copy` of a bank into a tagsegment. -/
def copyBankIntoTagsegment (objects : Objects Data Child) : Except String (Objects Data Child) :=
  let bankHeader := objects.src.header
  let bankLen := bankHeader.length.toUInt64
  if bankLen > 65535 then .error "Bank is too long to transform into tagsegment"
  else
    let tsHeader := setDataType { library.copy objects.dest.header bankHeader with
      length := (bankLen - 1).toUInt32 } bankHeader.dataType
    let after := library.transform { objects.dest with header := tsHeader } objects.src
    .ok ⟨after.1, after.2⟩

/-- The six overloads of `copy`. -/
inductive Overload where
  | segmentIntoBank (num : UInt8)
  | tagsegmentIntoBank (num : UInt8)
  | segmentIntoTagsegment
  | tagsegmentIntoSegment
  | bankIntoSegment
  | bankIntoTagsegment
deriving DecidableEq, Repr

namespace Overload

def dest : Overload → Kind
  | segmentIntoBank _ | tagsegmentIntoBank _ => .bank
  | segmentIntoTagsegment | bankIntoTagsegment => .tagsegment
  | tagsegmentIntoSegment | bankIntoSegment => .segment

def src : Overload → Kind
  | segmentIntoBank _ | segmentIntoTagsegment => .segment
  | tagsegmentIntoBank _ | tagsegmentIntoSegment => .tagsegment
  | bankIntoSegment | bankIntoTagsegment => .bank

def copy :
    Overload → Objects Data Child → Except String (Objects Data Child)
  | segmentIntoBank num, objects => .ok (copySegmentIntoBank library num objects)
  | tagsegmentIntoBank num, objects => .ok (copyTagsegmentIntoBank library num objects)
  | segmentIntoTagsegment, objects => .ok (copySegmentIntoTagsegment library objects)
  | tagsegmentIntoSegment, objects => .ok (copyTagsegmentIntoSegment library objects)
  | bankIntoSegment, objects => copyBankIntoSegment library objects
  | bankIntoTagsegment, objects => copyBankIntoTagsegment library objects

end Overload

/-- The destination holds the contents of the source, its length stands for as
many words of data as that of the source, and the source is as before. -/
structure Copied (overload : Overload) (before after : Objects Data Child) : Prop where
  data : after.dest.data = before.src.data
  children : after.dest.children = before.src.children
  length : dataWords overload.dest after.dest.header.length =
    dataWords overload.src before.src.header.length
  tag : after.dest.header.tag = before.src.header.tag
  source : after.src = before.src

@[simp] theorem setDataType_length (header : Header) (given : DataType) :
    (setDataType header given).length = header.length := by
  unfold setDataType
  split_ifs <;> rfl

@[simp] theorem setDataType_tag (header : Header) (given : DataType) :
    (setDataType header given).tag = header.tag := by
  unfold setDataType
  split_ifs <;> rfl

variable {library} (documented : library.Documented)

include documented

/-- A transform called on the destination, whose header has been given the tag of
the source and a length for the same number of words, has copied. -/
theorem copied_of_transform {overload : Overload} {before : Objects Data Child} {header : Header}
    (length : dataWords overload.dest header.length =
      dataWords overload.src before.src.header.length)
    (tag : header.tag = before.src.header.tag) :
    Copied overload before
      ⟨(library.transform { before.dest with header := header } before.src).1,
        (library.transform { before.dest with header := header } before.src).2⟩ where
  data := documented.data _ _
  children := documented.children _ _
  length := by
    rw [documented.length]
    exact length
  tag := by
    rw [documented.tag]
    exact tag
  source := documented.source _ _

omit documented in
/-- A bank's length less one is that of the other kinds. -/
theorem bankLen_sub_one (length : UInt32) : (length.toUInt64 - 1).toUInt32 = length - 1 := by
  rw [UInt64.toUInt32_sub, UInt32.toUInt32_toUInt64]
  rfl

/-- The transform that is called on the source leaves everything as it should be
only where source and destination have the same contents anyway. -/
theorem copyTagsegmentIntoSegment_copied_iff (before : Objects Data Child) :
    Copied .tagsegmentIntoSegment before (copyTagsegmentIntoSegment library before) ↔
      before.dest.data = before.src.data ∧ before.dest.children = before.src.children := by
  constructor
  · intro copied
    have data := copied.data
    have children := copied.children
    rw [copyTagsegmentIntoSegment, documented.source] at data children
    exact ⟨data, children⟩
  · intro copied
    obtain ⟨data, children⟩ := copied
    have kept : (copyTagsegmentIntoSegment library before).dest =
        { before.dest with header := before.src.header } := by
      rw [copyTagsegmentIntoSegment, documented.source, documented.copy]
    have src : (copyTagsegmentIntoSegment library before).src = before.src := by
      rw [copyTagsegmentIntoSegment, documented.copy]
      ext1
      · ext1
        · exact documented.length _ _
        · exact documented.tag _ _
        · exact documented.dataType _ _
        · exact documented.padding _ _ rfl
        · exact documented.number _ _
      · rw [documented.data]
        exact data
      · rw [documented.children]
        exact children
    refine ⟨?_, ?_, ?_, ?_, src⟩ <;> rw [kept]
    · exact data
    · exact children
    · rfl

/-- A copy that does not throw has copied, unless it was called for a tagsegment
and a segment with other contents. -/
theorem copy_copied_iff (overload : Overload) (before after : Objects Data Child)
    (returns : overload.copy library before = .ok after) :
    Copied overload before after ↔
      (overload = .tagsegmentIntoSegment →
        before.dest.data = before.src.data ∧ before.dest.children = before.src.children) := by
  cases overload with
  | segmentIntoBank num =>
      cases returns
      refine iff_of_true (copied_of_transform documented ?_ ?_)
        fun same => Overload.noConfusion same
      · simp [dataWords, Overload.dest, Overload.src]
      · simp [documented.copy]
  | tagsegmentIntoBank num =>
      cases returns
      refine iff_of_true (copied_of_transform documented ?_ ?_)
        fun same => Overload.noConfusion same
      · simp [dataWords, Overload.dest, Overload.src]
      · simp [documented.copy]
  | segmentIntoTagsegment =>
      cases returns
      refine iff_of_true (copied_of_transform documented ?_ ?_)
        fun same => Overload.noConfusion same
      · simp [dataWords, Overload.dest, Overload.src, documented.copy]
      · simp [documented.copy]
  | tagsegmentIntoSegment =>
      cases returns
      rw [copyTagsegmentIntoSegment_copied_iff documented]
      simp
  | bankIntoSegment =>
      rw [Overload.copy, copyBankIntoSegment] at returns
      split_ifs at returns with long
      cases returns
      refine iff_of_true (copied_of_transform documented ?_ ?_)
        fun same => Overload.noConfusion same
      · exact bankLen_sub_one _
      · simp [documented.copy]
  | bankIntoTagsegment =>
      rw [Overload.copy, copyBankIntoTagsegment] at returns
      split_ifs at returns with long
      cases returns
      refine iff_of_true (copied_of_transform documented ?_ ?_)
        fun same => Overload.noConfusion same
      · rw [setDataType_length]
        exact bankLen_sub_one _
      · simp [documented.copy]

omit documented

/-- Two segments of one word, the source with other data than the destination. -/
def sampleObjects : Objects (List UInt8) Unit where
  dest := ⟨⟨1, 7, .uint32, 0, 0⟩, [1, 1, 1, 1], []⟩
  src := ⟨⟨1, 3, .uint32, 0, 0⟩, [2, 2, 2, 2], []⟩

theorem copy_copied_iff_sample :
    Copied (.segmentIntoBank 1) sampleObjects
        (copySegmentIntoBank sampleLibrary 1 sampleObjects) ↔
      (Overload.segmentIntoBank 1 = .tagsegmentIntoSegment →
        sampleObjects.dest.data = sampleObjects.src.data ∧
          sampleObjects.dest.children = sampleObjects.src.children) :=
  copy_copied_iff sampleLibrary_documented (.segmentIntoBank 1) sampleObjects _ rfl

/-- The source gets the data of the destination. -/
theorem not_copied_tagsegmentIntoSegment :
    ∃ after, Overload.tagsegmentIntoSegment.copy sampleLibrary sampleObjects = .ok after ∧
      after.src.data = sampleObjects.dest.data ∧
      ¬ Copied .tagsegmentIntoSegment sampleObjects after := by
  refine ⟨_, rfl, rfl, fun copied => ?_⟩
  exact absurd copied.data (by decide)

end Transformer

end Dift.Evio
