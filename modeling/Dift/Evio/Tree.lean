import Dift.Foundation.Elements

/-!
Owns the evio format as trees: leaves of fixed-width elements, and containers
of banks, segments or tagsegments nested to any depth. A tree is written into
32-bit words in either byte order, where headers are words and leaf elements
keep their own width. `Fits` says which trees the header fields can describe.
Composite data is not part of these trees.
-/

namespace Dift.Evio

open Dift.Foundation

/-! ### Trees -/

/-- The leaf types 0x0 to 0xb. -/
inductive LeafType where
  | unknown32
  | uint32
  | float32
  | charstar8
  | short16
  | ushort16
  | char8
  | uchar8
  | double64
  | long64
  | ulong64
  | int32
deriving DecidableEq, Repr

def LeafType.code : LeafType → Nat
  | .unknown32 => 0x0
  | .uint32 => 0x1
  | .float32 => 0x2
  | .charstar8 => 0x3
  | .short16 => 0x4
  | .ushort16 => 0x5
  | .char8 => 0x6
  | .uchar8 => 0x7
  | .double64 => 0x8
  | .long64 => 0x9
  | .ulong64 => 0xa
  | .int32 => 0xb

/-- The bytes of an element; unknown data is bytes. -/
def LeafType.width : LeafType → Nat
  | .unknown32 | .charstar8 | .char8 | .uchar8 => 1
  | .short16 | .ushort16 => 2
  | .uint32 | .float32 | .int32 => 4
  | .double64 | .long64 | .ulong64 => 8

/-- The three structures with a header. -/
inductive Kind where
  | bank
  | segment
  | tagsegment
deriving DecidableEq, Repr

/-- The container types; banks and segments have two each. -/
inductive ContainerType where
  | tagsegment
  | alsoSegment
  | alsoBank
  | bank
  | segment
deriving DecidableEq, Repr

def ContainerType.code : ContainerType → Nat
  | .tagsegment => 0xc
  | .alsoSegment => 0xd
  | .alsoBank => 0xe
  | .bank => 0x10
  | .segment => 0x20

/-- What a container holds. -/
def ContainerType.kind : ContainerType → Kind
  | .tagsegment => .tagsegment
  | .alsoSegment | .segment => .segment
  | .alsoBank | .bank => .bank

/-- The fields of a header besides type and length; the `pad` bits are those
above the type, and not every kind has every field. -/
structure Label where
  tag : Nat
  pad : Nat
  num : Nat
deriving DecidableEq, Repr

mutual

/-- What follows a header. -/
inductive Content where
  | leaf (type : LeafType) (elements : List Nat)
  | container (type : ContainerType) (children : Forest)

/-- The structures in a container. -/
inductive Forest where
  | nil
  | cons (label : Label) (content : Content) (rest : Forest)

end

/-! ### Writing a tree -/

def Content.typeCode : Content → Nat
  | .leaf type _ => type.code
  | .container type _ => type.code

/-- The words of a header. -/
def Kind.headerWords : Kind → Nat
  | .bank => 2
  | .segment => 1
  | .tagsegment => 1

mutual

/-- The length in words. -/
def Content.words : Content → Nat
  | .leaf type elements => type.width * elements.length / 4
  | .container type children => Forest.words type.kind children

def Forest.words (kind : Kind) : Forest → Nat
  | .nil => 0
  | .cons _ content rest => kind.headerWords + content.words + Forest.words kind rest

end

/-- The header of a structure with this much data of this type. A bank counts
its second header word. -/
def Kind.header (kind : Kind) (label : Label) (type words : Nat) : List Nat :=
  match kind with
  | .bank => [words + 1, label.tag * 2 ^ 16 + label.pad * 2 ^ 14 + type * 2 ^ 8 + label.num]
  | .segment => [label.tag * 2 ^ 24 + label.pad * 2 ^ 22 + type * 2 ^ 16 + words]
  | .tagsegment => [label.tag * 2 ^ 20 + type * 2 ^ 16 + words]

mutual

/-- The bytes of the data. -/
def Content.bytes (order : ByteOrder) : Content → List UInt8
  | .leaf type elements => Radix.encode order type.width elements
  | .container type children => Forest.bytes order type.kind children

def Forest.bytes (order : ByteOrder) (kind : Kind) : Forest → List UInt8
  | .nil => []
  | .cons label content rest =>
      Radix.encode order 4 (kind.header label content.typeCode content.words) ++
        content.bytes order ++ Forest.bytes order kind rest

end

/-! ### Well-formed trees -/

/-- The fields of a header can hold the label, the type and the length. -/
def Kind.Holds (kind : Kind) (label : Label) (type words : Nat) : Prop :=
  match kind with
  | .bank =>
      label.tag < 2 ^ 16 ∧ label.pad < 2 ^ 2 ∧ type < 2 ^ 6 ∧ label.num < 2 ^ 8 ∧
        words + 1 < 2 ^ 32
  | .segment => label.tag < 2 ^ 8 ∧ label.pad < 2 ^ 2 ∧ type < 2 ^ 6 ∧ words < 2 ^ 16
  | .tagsegment => label.tag < 2 ^ 12 ∧ type < 2 ^ 4 ∧ words < 2 ^ 16

mutual

/-- Leaves are whole words of elements of their width, and every structure fits
its header. -/
def Content.Fits : Content → Prop
  | .leaf type elements =>
      4 ∣ type.width * elements.length ∧ ∀ element ∈ elements, element < 256 ^ type.width
  | .container type children => Forest.Fits type.kind children

def Forest.Fits (kind : Kind) : Forest → Prop
  | .nil => True
  | .cons label content rest =>
      kind.Holds label content.typeCode content.words ∧ content.Fits ∧ Forest.Fits kind rest

end

/-- A well-formed bank. -/
structure Bank where
  label : Label
  content : Content
  holds : Kind.bank.Holds label content.typeCode content.words
  fits : content.Fits

/-- An event is one bank. -/
def Bank.bytes (bank : Bank) (order : ByteOrder) : List UInt8 :=
  Radix.encode order 4 (Kind.bank.header bank.label bank.content.typeCode bank.content.words) ++
    bank.content.bytes order

/-! ### Sizes -/

theorem Kind.header_length (kind : Kind) (label : Label) (type words : Nat) :
    (kind.header label type words).length = kind.headerWords := by
  cases kind <;> rfl

mutual

theorem Content.bytes_length (order : ByteOrder) :
    ∀ {content : Content}, content.Fits → (content.bytes order).length = 4 * content.words
  | .leaf type elements, fits => by
      rw [Content.bytes, Radix.encode_length, Content.words, Nat.mul_div_cancel' fits.1]
  | .container type children, fits => by
      rw [Content.bytes, Content.words, Forest.bytes_length order fits]

theorem Forest.bytes_length (order : ByteOrder) {kind : Kind} :
    ∀ {forest : Forest}, forest.Fits kind →
      (forest.bytes order kind).length = 4 * forest.words kind
  | .nil, _ => rfl
  | .cons label content rest, fits => by
      rw [Forest.bytes, List.length_append, List.length_append, Radix.encode_length,
        Kind.header_length, Content.bytes_length order fits.2.1,
        Forest.bytes_length order fits.2.2, Forest.words]
      ring

end

end Dift.Evio
