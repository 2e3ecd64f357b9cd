import Dift.Evio.Raw

/-!
Owns what swapping does to a written tree. `left` is what the code leaves in
the buffer: the opposite byte order, except for those elements of a 16-bit leaf
that a count modulo 2^32 misses. Swapping a tree written in one order leaves
exactly these bytes and nothing else changed, by induction over the tree, and
they are the opposite order exactly when no missed element shows it.
-/

namespace Dift.Evio

open Dift.Foundation
open Dift.Wire

/-! ### What the code leaves -/

/-- How many elements of a leaf of so many words are swapped. -/
def LeafType.swapped (type : LeafType) (words : Nat) : Nat :=
  match type with
  | .unknown32 | .charstar8 | .char8 | .uchar8 => 0
  | .short16 | .ushort16 => 2 * words % 2 ^ 32
  | .uint32 | .float32 | .int32 => words
  | .double64 | .long64 | .ulong64 => words / 2

theorem LeafType.swapped_le (type : LeafType) (count : Nat) :
    type.swapped (type.width * count / 4) ≤ count := by
  cases type <;> simp only [LeafType.swapped, LeafType.width] <;> omega

mutual

/-- The bytes that swapping leaves of data in some order. -/
def Content.left (order : ByteOrder) : Content → List UInt8
  | .leaf type elements =>
      let count := type.swapped (type.width * elements.length / 4)
      Radix.encode order.opposite type.width (elements.take count) ++
        Radix.encode order type.width (elements.drop count)
  | .container type children => Forest.left order type.kind children

def Forest.left (order : ByteOrder) (kind : Kind) : Forest → List UInt8
  | .nil => []
  | .cons label content rest =>
      Radix.encode order.opposite 4 (kind.header label content.typeCode content.words) ++
        content.left order ++ Forest.left order kind rest

end

mutual

theorem Content.left_length (order : ByteOrder) :
    ∀ {content : Content}, content.Fits → (content.left order).length = 4 * content.words
  | .leaf type elements, fits => by
      rw [Content.left, List.length_append, Radix.encode_length, Radix.encode_length, ← mul_add,
        ← List.length_append, List.take_append_drop, Content.words, Nat.mul_div_cancel' fits.1]
  | .container type children, fits => by
      rw [Content.left, Content.words, Forest.left_length order fits]

theorem Forest.left_length (order : ByteOrder) {kind : Kind} :
    ∀ {forest : Forest}, forest.Fits kind →
      (forest.left order kind).length = 4 * forest.words kind
  | .nil, _ => rfl
  | .cons label content rest, fits => by
      rw [Forest.left, List.length_append, List.length_append, Radix.encode_length,
        Kind.header_length, Content.left_length order fits.2.1,
        Forest.left_length order fits.2.2, Forest.words]
      ring

end

/-! ### Trees as raw data -/

mutual

/-- The data as it stands in memory. -/
def Content.raw (order : ByteOrder) : Content → RawContent
  | .leaf type elements => .leaf type.code (Radix.encode order type.width elements)
  | .container type children => .container type (children.raw order)

def Forest.raw (order : ByteOrder) : Forest → RawForest
  | .nil => .nil
  | .cons label content rest => .cons label (content.raw order) (rest.raw order)

end

@[simp] theorem Content.raw_typeCode (order : ByteOrder) (content : Content) :
    (content.raw order).typeCode = content.typeCode := by
  cases content <;> rfl

mutual

@[simp] theorem Content.raw_words (order : ByteOrder) :
    ∀ content : Content, (content.raw order).words = content.words
  | .leaf type elements => by
      rw [Content.raw, RawContent.words, Radix.encode_length, Content.words]
  | .container type children => by
      rw [Content.raw, RawContent.words, Forest.raw_words, Content.words]

@[simp] theorem Forest.raw_words (order : ByteOrder) {kind : Kind} :
    ∀ forest : Forest, (forest.raw order).words kind = forest.words kind
  | .nil => rfl
  | .cons label content rest => by
      rw [Forest.raw, RawForest.words, Content.raw_words, Forest.raw_words, Forest.words]

end

mutual

theorem Content.raw_bytes (order : ByteOrder) :
    ∀ content : Content, (content.raw order).bytes order = content.bytes order
  | .leaf _ _ => rfl
  | .container type children => by
      rw [Content.raw, RawContent.bytes, Forest.raw_bytes, Content.bytes]

theorem Forest.raw_bytes (order : ByteOrder) {kind : Kind} :
    ∀ forest : Forest, (forest.raw order).bytes order kind = forest.bytes order kind
  | .nil => rfl
  | .cons label content rest => by
      rw [Forest.raw, RawForest.bytes, Content.raw_bytes, Forest.raw_bytes, Content.raw_typeCode,
        Content.raw_words, Forest.bytes]

end

theorem LeafType.isLeaf_code (type : LeafType) : IsLeaf type.code := by
  cases type <;> decide

@[simp] theorem LeafType.leafWidth_code (type : LeafType) : leafWidth type.code = type.width := by
  cases type <;> rfl

/-- Other elements than bytes are reversed. -/
theorem LeafType.leafCount_code {type : LeafType} (wide : type.width ≠ 1) (words : Nat) :
    leafCount type.code words = type.swapped words := by
  cases type with
  | unknown32 | charstar8 | char8 | uchar8 => exact absurd rfl wide
  | uint32 | float32 | int32 | double64 | long64 | ulong64 | short16 | ushort16 => rfl

mutual

theorem Content.raw_fits (order : ByteOrder) :
    ∀ {content : Content}, content.Fits → (content.raw order).Fits
  | .leaf type elements, fits => by
      rw [Content.raw, RawContent.Fits, Radix.encode_length, LeafType.leafWidth_code]
      exact ⟨type.isLeaf_code, fits.1, fun wide => ⟨elements.length, by rw [wide]⟩⟩
  | .container type children, fits => Forest.raw_fits order fits

theorem Forest.raw_fits (order : ByteOrder) {kind : Kind} :
    ∀ {forest : Forest}, forest.Fits kind → (forest.raw order).Fits kind
  | .nil, _ => trivial
  | .cons label content rest, ⟨holds, contentFits, restFits⟩ => by
      rw [Forest.raw, RawForest.Fits, Content.raw_typeCode, Content.raw_words]
      exact ⟨holds, Content.raw_fits order contentFits, Forest.raw_fits order restFits⟩

end

/-- Reversing the first elements of an array and leaving the others. -/
theorem filled_encode (order : ByteOrder) (width : Nat) {elements : List Nat} {count : Nat}
    (inside : count ≤ elements.length) :
    List.zipWith Option.getD
      ((Radix.reverseEach width count (Radix.encode order width elements)).map some ++
        List.replicate (width * elements.length - width * count) none)
      (Radix.encode order width elements) =
    Radix.encode order.opposite width (elements.take count) ++
      Radix.encode order width (elements.drop count) := by
  have size : (elements.take count).length = count := List.length_take_of_le inside
  have cut := Radix.encode_append order width (elements.take count) (elements.drop count)
  rw [List.take_append_drop] at cut
  have missed : width * elements.length - width * count =
      (Radix.encode order width (elements.drop count)).length := by
    rw [Radix.encode_length, List.length_drop, Nat.mul_sub]
  have reversed : Radix.reverseEach width count (Radix.encode order width elements) =
      Radix.encode order.opposite width (elements.take count) := by
    rw [← Radix.reverseEach_take _ le_rfl, cut, List.take_left' (by simp [size]),
      ← Radix.reverseEach_encode, size]
  rw [reversed, missed, cut, List.zipWith_append (by simp), Memory.filled_map_some (by simp),
    Memory.filled_replicate_none]

/-- A byte is the same in both orders. -/
theorem bytes_one_opposite (order : ByteOrder) (element : Nat) :
    Radix.bytes order 1 element = Radix.bytes order.opposite 1 element := by
  cases order <;> rfl

/-- What is written of a leaf, with the missed elements as they were. -/
theorem leaf_left_eq_filled (order : ByteOrder) {type : LeafType} {elements : List Nat}
    (wholeWords : 4 ∣ type.width * elements.length) :
    List.zipWith Option.getD (((Content.leaf type elements).raw order).written order)
      ((Content.leaf type elements).bytes order) = (Content.leaf type elements).left order := by
  rw [Content.raw, RawContent.written, Content.bytes, Content.left, LeafType.leafWidth_code,
    Radix.encode_length]
  cases type with
  | unknown32 | charstar8 | char8 | uchar8 =>
      -- single bytes are copied, which reverses none of them
      have all : 4 * (1 * elements.length / 4) = elements.length := by
        simp only [LeafType.width] at wholeWords
        omega
      have same := (Radix.encode_opposite_eq_iff order 1 elements).mpr
        fun element _ => bytes_one_opposite order element
      apply (filled_encode order 1 all.le).trans
      rw [all, List.take_length, List.drop_length, ← same]
      simp [LeafType.swapped, LeafType.width]
  | uint32 | float32 | int32 | double64 | long64 | ulong64 | short16 | ushort16 =>
      rw [LeafType.leafCount_code (by decide)]
      exact filled_encode order _ (LeafType.swapped_le _ elements.length)

mutual

/-- What is left of a tree is what is written, with the missed elements as they
were. -/
theorem Content.left_eq_filled (order : ByteOrder) : ∀ {content : Content}, content.Fits →
    List.zipWith Option.getD ((content.raw order).written order) (content.bytes order) =
      content.left order
  | .leaf _ _, fits => leaf_left_eq_filled order fits.1
  | .container _ _, fits => Forest.left_eq_filled order fits

theorem Forest.left_eq_filled (order : ByteOrder) {kind : Kind} : ∀ {forest : Forest},
    forest.Fits kind →
    List.zipWith Option.getD ((forest.raw order).written order kind) (forest.bytes order kind) =
      forest.left order kind
  | .nil, _ => rfl
  | .cons label content rest, ⟨_, contentFits, restFits⟩ => by
      have size : ((content.raw order).written order).length = (content.bytes order).length := by
        rw [RawContent.written_length order (Content.raw_fits order contentFits),
          Content.raw_words, Content.bytes_length order contentFits]
      rw [Forest.raw, RawForest.written, Forest.bytes, List.append_assoc, List.append_assoc,
        List.zipWith_append (by simp), List.zipWith_append size, Memory.filled_map_some (by simp),
        Content.left_eq_filled order contentFits, Forest.left_eq_filled order restFits,
        Forest.left, List.append_assoc, Content.raw_typeCode, Content.raw_words]

end

/-! ### Which trees keep their meaning -/

mutual

/-- The elements of every 16-bit leaf from index `length % 2^32` on are two
equal bytes; below 2^32 elements there are none. -/
def Content.Whole : Content → Prop
  | .leaf type elements =>
      type.width = 2 →
        ∀ element ∈ elements.drop (elements.length % 2 ^ 32), element % 256 = element / 256
  | .container _ children => children.Whole

def Forest.Whole : Forest → Prop
  | .nil => True
  | .cons _ content rest => content.Whole ∧ rest.Whole

end

/-- Two bytes are the same in both orders when they are equal. -/
theorem bytes_two_opposite_iff (order : ByteOrder) {element : Nat} (small : element < 256 ^ 2) :
    Radix.bytes order 2 element = Radix.bytes order.opposite 2 element ↔
      element % 256 = element / 256 := by
  have low : (UInt8.ofNat element).toNat = element % 256 := UInt8.toNat_ofNat'
  have high : (UInt8.ofNat (element / 256)).toNat = element / 256 := by
    rw [UInt8.toNat_ofNat', Nat.mod_eq_of_lt (by omega)]
  have bytes : Radix.littleBytes 2 element = [UInt8.ofNat element, UInt8.ofNat (element / 256)] :=
    rfl
  rw [Radix.bytes_opposite]
  cases order <;>
    simp only [Radix.bytes, bytes, List.reverse_cons, List.reverse_nil, List.nil_append,
      List.cons_append, List.cons.injEq, and_true, ← UInt8.toNat_inj, low, high] <;>
    omega

/-- A leaf is left in the opposite order exactly when it is whole. -/
theorem leaf_left_eq_iff (order : ByteOrder) {type : LeafType} {elements : List Nat}
    (fits : (Content.leaf type elements).Fits) :
    (Content.leaf type elements).left order = (Content.leaf type elements).bytes order.opposite ↔
      (Content.leaf type elements).Whole := by
  have cut := Radix.encode_append order.opposite type.width
    (elements.take (type.swapped (type.width * elements.length / 4)))
    (elements.drop (type.swapped (type.width * elements.length / 4)))
  rw [List.take_append_drop] at cut
  rw [Content.left, Content.bytes, cut, List.append_cancel_left_eq,
    Radix.encode_opposite_eq_iff, Content.Whole]
  rcases fits with ⟨wholeWords, small⟩
  cases type with
  | unknown32 | charstar8 | char8 | uchar8 =>
      exact iff_of_true (fun element _ => bytes_one_opposite order element)
        fun two => absurd two (by decide)
  | uint32 | float32 | int32 | double64 | long64 | ulong64 =>
      refine iff_of_true (fun element missed => ?_) fun two => absurd two (by decide)
      rw [List.drop_of_length_le (by simp only [LeafType.swapped, LeafType.width]; omega)] at missed
      cases missed
  | short16 | ushort16 =>
      have count : LeafType.short16.swapped (LeafType.short16.width * elements.length / 4) =
          elements.length % 2 ^ 32 := by
        simp only [LeafType.swapped, LeafType.width] at wholeWords ⊢
        omega
      rw [← count]
      constructor
      · intro same _ element missed
        exact (bytes_two_opposite_iff order (small element (List.mem_of_mem_drop missed))).mp
          (same element missed)
      · intro whole element missed
        exact (bytes_two_opposite_iff order (small element (List.mem_of_mem_drop missed))).mpr
          (whole rfl element missed)

mutual

theorem Content.left_eq_iff (order : ByteOrder) : ∀ {content : Content}, content.Fits →
    (content.left order = content.bytes order.opposite ↔ content.Whole)
  | .leaf _ _, fits => leaf_left_eq_iff order fits
  | .container _ _, fits => Forest.left_eq_iff order fits

theorem Forest.left_eq_iff (order : ByteOrder) {kind : Kind} : ∀ {forest : Forest},
    forest.Fits kind →
    (forest.left order kind = forest.bytes order.opposite kind ↔ forest.Whole)
  | .nil, _ => iff_of_true rfl trivial
  | .cons label content rest, ⟨_, contentFits, restFits⟩ => by
      have size : (content.left order).length = (content.bytes order.opposite).length := by
        rw [Content.left_length _ contentFits, Content.bytes_length _ contentFits]
      rw [Forest.left, Forest.bytes, List.append_assoc, List.append_assoc,
        List.append_cancel_left_eq, Radix.append_eq_append_iff_of_length size,
        Content.left_eq_iff order contentFits, Forest.left_eq_iff order restFits, Forest.Whole]

end

/-- What swapping leaves of a bank. -/
def Bank.left (bank : Bank) (order : ByteOrder) : List UInt8 :=
  Radix.encode order.opposite 4
    (Kind.bank.header bank.label bank.content.typeCode bank.content.words) ++
    bank.content.left order

theorem Bank.bytes_length (bank : Bank) (order : ByteOrder) :
    (bank.bytes order).length = 4 * (2 + bank.content.words) := by
  rw [Bank.bytes, List.length_append, Radix.encode_length, Kind.header_length,
    Content.bytes_length order bank.fits, Nat.mul_add]
  rfl

theorem Bank.left_length (bank : Bank) (order : ByteOrder) :
    (bank.left order).length = 4 * (2 + bank.content.words) := by
  rw [Bank.left, List.length_append, Radix.encode_length, Kind.header_length,
    Content.left_length order bank.fits, Nat.mul_add]
  rfl

theorem Bank.left_eq_iff (bank : Bank) (order : ByteOrder) :
    bank.left order = bank.bytes order.opposite ↔ bank.content.Whole := by
  rw [Bank.left, Bank.bytes, List.append_cancel_left_eq,
    Content.left_eq_iff order bank.fits]

/-- The bank as it stands in memory. -/
def Bank.raw (bank : Bank) (order : ByteOrder) : RawBank where
  label := bank.label
  content := bank.content.raw order
  holds := by
    rw [Content.raw_typeCode, Content.raw_words]
    exact bank.holds
  fits := Content.raw_fits order bank.fits

theorem Bank.raw_words (bank : Bank) (order : ByteOrder) :
    (bank.raw order).words = 2 + bank.content.words := by
  rw [RawBank.words, Bank.raw, Content.raw_words]

theorem Bank.raw_bytes (bank : Bank) (order : ByteOrder) :
    (bank.raw order).bytes order = bank.bytes order := by
  rw [RawBank.bytes, Bank.raw, Content.raw_typeCode, Content.raw_words, Content.raw_bytes,
    Bank.bytes]

theorem Bank.left_eq_filled (bank : Bank) (order : ByteOrder) :
    List.zipWith Option.getD ((bank.raw order).written order) (bank.bytes order) =
      bank.left order := by
  rw [RawBank.written, structureWritten, Bank.raw, Content.raw_typeCode, Content.raw_words,
    Bank.bytes, List.zipWith_append (by simp), Memory.filled_map_some (by simp),
    Content.left_eq_filled order bank.fits, Bank.left]

/-- Two results that both stand from some fuel on are one. -/
theorem result_unique {α : Type*} {result : Nat → Option α} {first second : α}
    (one : ∃ fuel, ∀ more, fuel ≤ more → result more = some first)
    (other : ∃ fuel, ∀ more, fuel ≤ more → result more = some second) : first = second := by
  rcases one with ⟨fuel, returns⟩
  rcases other with ⟨more, alsoReturns⟩
  have same := (returns (max fuel more) (le_max_left _ _)).symm.trans
    (alsoReturns (max fuel more) (le_max_right _ _))
  exact Option.some.inj same

section

variable (host : ByteOrder) (swapAll : SwapAll)

/-- `swapBank` in place returns with this memory. -/
def SwapsTo (memory : Mem) (buf : Nat) (toLocal : Bool) (result : Mem) : Prop :=
  ∃ fuel, ∀ more, fuel ≤ more →
    swapBank host swapAll more memory (some buf) toLocal none = some result

variable {host swapAll}

theorem SwapsTo.unique {memory : Mem} {buf : Nat} {toLocal : Bool} {first second : Mem}
    (one : SwapsTo host swapAll memory buf toLocal first)
    (other : SwapsTo host swapAll memory buf toLocal second) : first = second :=
  result_unique one other

/-- Swapping a bank returns, and leaves exactly what it leaves of the bank. -/
theorem swapsTo_left (bank : Bank) {toLocal : Bool} {memory : Mem} {buf : Nat}
    (held : memory.read buf (4 * (2 + bank.content.words)) =
      bank.bytes (source host toLocal)) :
    SwapsTo host swapAll memory buf toLocal
      (memory.write buf (bank.left (source host toLocal))) := by
  refine ⟨(bank.raw (source host toLocal)).content.cost + 1, fun more enough => ?_⟩
  have size := bank.bytes_length (source host toLocal)
  rw [← bank.raw_words (source host toLocal)] at held size
  have cells := (bank.raw (source host toLocal)).written_length (source host toLocal)
  have filled := Memory.overlay_eq_write_filled (cells.trans size.symm) (size ▸ held)
  rw [← bank.raw_bytes] at held
  rw [swapBank_written host swapAll _ (apart_none _ _) held enough, Option.getD_none, filled,
    Bank.left_eq_filled]

variable (host swapAll)

/-- Swapping preserves the meaning of a bank: from the native order to the
opposite one, back, and one call undoes the other. -/
structure Preserves (bank : Bank) : Prop where
  fromLocal : ∀ (memory : Mem) buf,
    memory.read buf (4 * (2 + bank.content.words)) = bank.bytes host →
    SwapsTo host swapAll memory buf false (memory.write buf (bank.bytes host.opposite))
  toLocal : ∀ (memory : Mem) buf,
    memory.read buf (4 * (2 + bank.content.words)) = bank.bytes host.opposite →
    SwapsTo host swapAll memory buf true (memory.write buf (bank.bytes host))
  inverse : ∀ (memory : Mem) buf,
    memory.read buf (4 * (2 + bank.content.words)) = bank.bytes host →
    ∃ swapped, SwapsTo host swapAll memory buf false swapped ∧
      SwapsTo host swapAll swapped buf true memory
  inverseToLocal : ∀ (memory : Mem) buf,
    memory.read buf (4 * (2 + bank.content.words)) = bank.bytes host.opposite →
    ∃ swapped, SwapsTo host swapAll memory buf true swapped ∧
      SwapsTo host swapAll swapped buf false memory

/-- A memory that holds a bank. -/
theorem exists_held (bank : Bank) (order : ByteOrder) (buf : Nat) :
    ∃ memory : Mem, memory.read buf (4 * (2 + bank.content.words)) = bank.bytes order := by
  refine ⟨Memory.write (fun _ => 0) buf (bank.bytes order), ?_⟩
  rw [← bank.bytes_length order]
  exact Memory.read_write_self _ _ _

/-- Only a whole bank comes out in the opposite order. -/
theorem whole_of_preserves {bank : Bank} (preserves : Preserves host swapAll bank) :
    bank.content.Whole := by
  rcases exists_held bank host 0 with ⟨memory, held⟩
  have same := (preserves.fromLocal memory 0 held).unique (swapsTo_left bank held)
  have back := congrArg (fun result => Memory.read result 0 (4 * (2 + bank.content.words))) same
  have opposite := Memory.read_write_self memory 0 (bank.bytes host.opposite)
  have left := Memory.read_write_self memory 0 (bank.left host)
  rw [Bank.bytes_length] at opposite
  rw [Bank.left_length] at left
  apply (bank.left_eq_iff host).mp
  calc bank.left host = _ := left.symm
    _ = _ := back.symm
    _ = bank.bytes host.opposite := opposite

/-- Swapping a whole bank writes it in the opposite order. -/
theorem swapsTo_of_whole {bank : Bank} (whole : bank.content.Whole) (toLocal : Bool)
    {memory : Mem} {buf : Nat}
    (held : memory.read buf (4 * (2 + bank.content.words)) =
      bank.bytes (source host toLocal)) :
    SwapsTo host swapAll memory buf toLocal
      (memory.write buf (bank.bytes (source host toLocal).opposite)) := by
  rw [← (bank.left_eq_iff _).mpr whole]
  exact swapsTo_left bank held

/-- Swapping a whole bank twice, once in each direction, restores the buffer. -/
theorem swapsTo_back {bank : Bank} (whole : bank.content.Whole) (toLocal : Bool)
    {memory : Mem} {buf : Nat}
    (held : memory.read buf (4 * (2 + bank.content.words)) =
      bank.bytes (source host toLocal)) :
    SwapsTo host swapAll
      (memory.write buf (bank.bytes (source host toLocal).opposite)) buf (!toLocal) memory := by
  have other : source host (!toLocal) = (source host toLocal).opposite := by
    cases toLocal <;> simp
  have size := bank.bytes_length (source host toLocal).opposite
  have swapped : (memory.write buf (bank.bytes (source host toLocal).opposite)).read buf
      (4 * (2 + bank.content.words)) = bank.bytes (source host (!toLocal)) := by
    rw [← size, other]
    exact Memory.read_write_self _ _ _
  have back := swapsTo_of_whole host swapAll whole (!toLocal) swapped
  rw [other, ByteOrder.opposite_opposite, Memory.write_write _ _
    (by rw [Bank.bytes_length, Bank.bytes_length]), ← held, Memory.write_read] at back
  exact back

/-- Swapping preserves the meaning of exactly the whole banks: those whose
16-bit leaves have fewer than 2^32 elements, or do not show what is missed. -/
theorem preserves_iff_whole (bank : Bank) :
    Preserves host swapAll bank ↔ bank.content.Whole := by
  constructor
  · exact whole_of_preserves host swapAll
  · intro whole
    refine ⟨?_, ?_, ?_, ?_⟩ <;> intro memory buf held
    · exact swapsTo_of_whole host swapAll whole false held
    · have swapped := swapsTo_of_whole host swapAll whole true held
      rwa [source_true, ByteOrder.opposite_opposite] at swapped
    · exact ⟨_, swapsTo_of_whole host swapAll whole false held,
        swapsTo_back host swapAll whole false held⟩
    · exact ⟨_, swapsTo_of_whole host swapAll whole true held,
        swapsTo_back host swapAll whole true held⟩

end

/-- One leaf of shorts, all of them 1. -/
def sampleBank (count : Nat) (even : 2 ∣ count) (small : count / 2 + 1 < 2 ^ 32) : Bank where
  label := ⟨1, 0, 1⟩
  content := .leaf .short16 (List.replicate count 1)
  holds := by
    simp only [Kind.Holds, Content.typeCode, LeafType.code, Content.words, LeafType.width,
      List.length_replicate]
    omega
  fits := by
    constructor
    · rw [List.length_replicate, LeafType.width]
      omega
    · intro element member
      rw [List.eq_of_mem_replicate member]
      decide

/-- A number of shorts that is too large for the count is not whole. -/
theorem not_whole_sampleBank {count : Nat} (even : 2 ∣ count) (small : count / 2 + 1 < 2 ^ 32)
    (large : 2 ^ 32 ≤ count) : ¬ (sampleBank count even small).content.Whole := by
  intro whole
  have missed : 1 ∈ (List.replicate count 1).drop ((List.replicate count 1).length % 2 ^ 32) := by
    rw [List.length_replicate, List.drop_replicate, List.mem_replicate]
    exact ⟨by omega, rfl⟩
  have equalBytes := whole rfl 1 missed
  exact absurd equalBytes (by decide)

/-- With 2^31 words of shorts nothing is swapped. -/
theorem not_preserves_sampleBank :
    ¬ Preserves .little (fun memory _ _ _ _ => memory)
      (sampleBank (2 ^ 32) (by decide) (by decide)) :=
  fun preserves => not_whole_sampleBank _ _ le_rfl (whole_of_preserves _ _ preserves)

end Dift.Evio
