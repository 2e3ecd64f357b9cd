import Dift.Foundation.Overlay
import Dift.Evio.Swap
import Dift.Evio.Tree

/-!
Owns evio structures as the bytes that stand in memory: leaves of any type code
that is neither a container nor composite data, unknown ones included, and
containers of them. `written` says for every byte of such data what the code
writes in its place, with a missing cell where it writes nothing. By induction
over the data, swapping lays exactly these cells over the memory, in place or
over a separate destination.
-/

namespace Dift.Evio

open Dift.Foundation
open Dift.Wire

/-! ### Raw data -/

/-- The type is neither a container nor composite data. -/
def IsLeaf (code : Nat) : Prop :=
  code ∉ [0xc, 0xd, 0xe, 0xf, 0x10, 0x20]

instance (code : Nat) : Decidable (IsLeaf code) :=
  inferInstanceAs (Decidable (code ∉ [0xc, 0xd, 0xe, 0xf, 0x10, 0x20]))

/-- The bytes of an element; unknown data is bytes. -/
def leafWidth (code : Nat) : Nat :=
  if code = 0x1 ∨ code = 0x2 ∨ code = 0xb then 4
  else if code = 0x4 ∨ code = 0x5 then 2
  else if code = 0x8 ∨ code = 0x9 ∨ code = 0xa then 8
  else 1

/-- The elements that are handled in a leaf of so many words: shorts are
counted in 32 bits. -/
def leafCount (code words : Nat) : Nat :=
  if code = 0x1 ∨ code = 0x2 ∨ code = 0xb then words
  else if code = 0x4 ∨ code = 0x5 then 2 * words % 2 ^ 32
  else if code = 0x8 ∨ code = 0x9 ∨ code = 0xa then words / 2
  else 4 * words

mutual

/-- What follows a header. -/
inductive RawContent where
  | leaf (code : Nat) (stored : List UInt8)
  | container (type : ContainerType) (children : RawForest)

/-- The structures in a container. -/
inductive RawForest where
  | nil
  | cons (label : Label) (content : RawContent) (rest : RawForest)

end

def RawContent.typeCode : RawContent → Nat
  | .leaf code _ => code
  | .container type _ => type.code

mutual

/-- The length in words. -/
def RawContent.words : RawContent → Nat
  | .leaf _ stored => stored.length / 4
  | .container type children => RawForest.words type.kind children

def RawForest.words (kind : Kind) : RawForest → Nat
  | .nil => 0
  | .cons _ content rest => kind.headerWords + content.words + RawForest.words kind rest

end

mutual

/-- The bytes of the data; headers are words in some order. -/
def RawContent.bytes (order : ByteOrder) : RawContent → List UInt8
  | .leaf _ stored => stored
  | .container type children => RawForest.bytes order type.kind children

def RawForest.bytes (order : ByteOrder) (kind : Kind) : RawForest → List UInt8
  | .nil => []
  | .cons label content rest =>
      Radix.encode order 4 (kind.header label content.typeCode content.words) ++
        content.bytes order ++ RawForest.bytes order kind rest

end

mutual

/-- Leaves are whole words, those of 8-byte elements an even number of them,
and every structure fits its header. -/
def RawContent.Fits : RawContent → Prop
  | .leaf code stored =>
      IsLeaf code ∧ 4 ∣ stored.length ∧ (leafWidth code = 8 → 8 ∣ stored.length)
  | .container type children => RawForest.Fits type.kind children

def RawForest.Fits (kind : Kind) : RawForest → Prop
  | .nil => True
  | .cons label content rest =>
      kind.Holds label content.typeCode content.words ∧ content.Fits ∧ RawForest.Fits kind rest

end

mutual

/-- What is written in the place of every byte of data whose headers stand in
this order. -/
def RawContent.written (order : ByteOrder) : RawContent → List (Option UInt8)
  | .leaf code stored =>
      let count := leafCount code (stored.length / 4)
      (Radix.reverseEach (leafWidth code) count stored).map some ++
        List.replicate (stored.length - leafWidth code * count) none
  | .container type children => RawForest.written order type.kind children

def RawForest.written (order : ByteOrder) (kind : Kind) : RawForest → List (Option UInt8)
  | .nil => []
  | .cons label content rest =>
      (Radix.encode order.opposite 4
          (kind.header label content.typeCode content.words)).map some ++
        content.written order ++ RawForest.written order kind rest

end

mutual

/-- The fuel that suffices to swap the data. -/
def RawContent.cost : RawContent → Nat
  | .leaf _ _ => 1
  | .container _ children => 1 + children.cost

def RawForest.cost : RawForest → Nat
  | .nil => 1
  | .cons _ content rest => 2 + content.cost + rest.cost

end

/-! ### Sizes -/

/-- No more elements are handled than there are. -/
theorem leafWidth_mul_leafCount_le (code : Nat) {size : Nat} (wholeWords : 4 ∣ size) :
    leafWidth code * leafCount code (size / 4) ≤ size := by
  unfold leafWidth leafCount
  split_ifs <;> omega

mutual

theorem RawContent.bytes_length (order : ByteOrder) :
    ∀ {content : RawContent}, content.Fits → (content.bytes order).length = 4 * content.words
  | .leaf code stored, fits => by
      rw [RawContent.bytes, RawContent.words, Nat.mul_div_cancel' fits.2.1]
  | .container type children, fits => by
      rw [RawContent.bytes, RawContent.words, RawForest.bytes_length order fits]

theorem RawForest.bytes_length (order : ByteOrder) {kind : Kind} :
    ∀ {forest : RawForest}, forest.Fits kind →
      (forest.bytes order kind).length = 4 * forest.words kind
  | .nil, _ => rfl
  | .cons label content rest, fits => by
      rw [RawForest.bytes, List.length_append, List.length_append, Radix.encode_length,
        Kind.header_length, RawContent.bytes_length order fits.2.1,
        RawForest.bytes_length order fits.2.2, RawForest.words]
      ring

end

mutual

theorem RawContent.written_length (order : ByteOrder) :
    ∀ {content : RawContent}, content.Fits → (content.written order).length = 4 * content.words
  | .leaf code stored, fits => by
      have inside := leafWidth_mul_leafCount_le code fits.2.1
      rw [RawContent.written, List.length_append, List.length_map,
        Radix.reverseEach_length inside, List.length_replicate, RawContent.words,
        Nat.mul_div_cancel' fits.2.1, Nat.add_sub_cancel' inside]
  | .container type children, fits => by
      rw [RawContent.written, RawContent.words, RawForest.written_length order fits]

theorem RawForest.written_length (order : ByteOrder) {kind : Kind} :
    ∀ {forest : RawForest}, forest.Fits kind →
      (forest.written order kind).length = 4 * forest.words kind
  | .nil, _ => rfl
  | .cons label content rest, fits => by
      rw [RawForest.written, List.length_append, List.length_append, List.length_map,
        Radix.encode_length, Kind.header_length, RawContent.written_length order fits.2.1,
        RawForest.written_length order fits.2.2, RawForest.words]
      ring

end

/-! ### Headers and words -/

def Kind.layout : Kind → Layout
  | .bank => bankLayout
  | .segment => segmentLayout
  | .tagsegment => tagsegmentLayout

@[simp] theorem Kind.layout_headerWords (kind : Kind) :
    kind.layout.headerWords = kind.headerWords := by
  cases kind <;> rfl

/-- Words that stand in the host's order are read as they are. -/
theorem words_eq {host : ByteOrder} {memory : Mem} {p : Nat} {values : List Nat}
    (held : memory.read p (4 * values.length) = Radix.encode host 4 values) {index : Nat}
    (inside : index < values.length) : words host memory p index = UInt32.ofNat values[index] := by
  induction values generalizing p index with
  | nil => cases inside
  | cons value rest inductionHypothesis =>
      rw [Radix.encode_cons] at held
      rcases Memory.read_split held with ⟨first, later⟩
      rw [Radix.bytes_length] at first later
      cases index with
      | zero =>
          rw [words, load32, Nat.mul_zero, Nat.add_zero, first, Radix.value_bytes,
            List.getElem_cons_zero]
          apply UInt32.toNat_inj.mp
          simp
      | succ index =>
          rw [Radix.encode_length] at later
          have found := inductionHypothesis later (Nat.lt_of_succ_lt_succ inside)
          rw [List.getElem_cons_succ, ← found, words, words]
          congr 1
          ring

theorem toNat_ofNat {number : Nat} (small : number < 2 ^ 32) :
    (UInt32.ofNat number).toNat = number := by
  rw [UInt32.toNat_ofNat', Nat.mod_eq_of_lt small]

private theorem ofNat_shiftRight {word : Nat} (small : word < 2 ^ 32) (shift : Nat)
    (shiftSmall : shift < 32) :
    UInt32.ofNat word >>> UInt32.ofNat shift = UInt32.ofNat (word / 2 ^ shift) := by
  have less : word / 2 ^ shift < 2 ^ 32 := (Nat.div_le_self _ _).trans_lt small
  apply UInt32.toNat_inj.mp
  rw [UInt32.toNat_shiftRight, toNat_ofNat small, toNat_ofNat (show shift < 2 ^ 32 by omega),
    toNat_ofNat less, Nat.mod_eq_of_lt shiftSmall, Nat.shiftRight_eq_div_pow]

private theorem ofNat_and_mask {word : Nat} (small : word < 2 ^ 32) (bits : Nat)
    (bitsSmall : bits < 32) :
    UInt32.ofNat word &&& UInt32.ofNat (2 ^ bits - 1) = UInt32.ofNat (word % 2 ^ bits) := by
  have maskSmall : 2 ^ bits < 2 ^ 32 := Nat.pow_lt_pow_right (by omega) bitsSmall
  have less : word % 2 ^ bits < 2 ^ 32 := (Nat.mod_le _ _).trans_lt small
  apply UInt32.toNat_inj.mp
  rw [UInt32.toNat_and, toNat_ofNat small, toNat_ofNat (show 2 ^ bits - 1 < 2 ^ 32 by omega),
    toNat_ofNat less, Nat.and_two_pow_sub_one_eq_mod]

/-- A field of a header word. -/
private theorem field_eq {word : Nat} (small : word < 2 ^ 32) (shift bits : Nat)
    (shiftSmall : shift < 32) (bitsSmall : bits < 32) :
    (UInt32.ofNat word >>> UInt32.ofNat shift) &&& UInt32.ofNat (2 ^ bits - 1) =
      UInt32.ofNat (word / 2 ^ shift % 2 ^ bits) := by
  rw [ofNat_shiftRight small shift shiftSmall,
    ofNat_and_mask ((Nat.div_le_self _ _).trans_lt small) bits bitsSmall]

/-- The low half of a word that ends in a size. -/
private theorem ofNat_and_low {word size : Nat} (small : word < 2 ^ 32)
    (low : word % 2 ^ 16 = size) :
    UInt32.ofNat word &&& 0xffff = UInt32.ofNat size := by
  rw [← low]
  exact ofNat_and_mask small 16 (by decide)

/-- What is read from a header is what was written there. -/
theorem Kind.layout_header {kind : Kind} {label : Label} {type size : Nat}
    (holds : kind.Holds label type size) {p : Nat → UInt32}
    (read : ∀ index (inside : index < (kind.header label type size).length),
      p index = UInt32.ofNat (kind.header label type size)[index]) :
    kind.layout.dataType p = UInt32.ofNat type ∧ kind.layout.dataLength p = UInt32.ofNat size ∧
      kind.layout.fragmentLength (p 0) = UInt32.ofNat (kind.headerWords + size) := by
  have first := read 0 (by cases kind <;> simp [header])
  cases kind with
  | bank =>
      have second := read 1 (by simp [header])
      simp only [header, List.getElem_cons_zero, List.getElem_cons_succ] at first second
      rcases holds with ⟨tagSmall, padSmall, typeSmall, numSmall, sizeSmall⟩
      simp only [layout, bankLayout, headerWords, first, second]
      refine ⟨?_, ?_, ?_⟩
      · apply (field_eq (by omega) 8 6 (by decide) (by decide)).trans
        congr 1
        omega
      · rw [UInt32.ofNat_add]
        simp
      · rw [← UInt32.ofNat_one, ← UInt32.ofNat_add]
        congr 1
        omega
  | segment =>
      simp only [header, List.getElem_cons_zero] at first
      rcases holds with ⟨tagSmall, padSmall, typeSmall, sizeSmall⟩
      have length : p 0 &&& 0xffff = UInt32.ofNat size := by
        rw [first]
        exact ofNat_and_low (by omega) (by omega)
      refine ⟨?_, length, ?_⟩
      · simp only [layout, segmentLayout, first]
        apply (field_eq (by omega) 16 6 (by decide) (by decide)).trans
        congr 1
        omega
      · simp only [layout, segmentLayout, headerWords, length]
        rw [← UInt32.ofNat_one, ← UInt32.ofNat_add, Nat.add_comm]
  | tagsegment =>
      simp only [header, List.getElem_cons_zero] at first
      rcases holds with ⟨tagSmall, typeSmall, sizeSmall⟩
      have length : p 0 &&& 0xffff = UInt32.ofNat size := by
        rw [first]
        exact ofNat_and_low (by omega) (by omega)
      refine ⟨?_, length, ?_⟩
      · simp only [layout, tagsegmentLayout, first]
        apply (field_eq (by omega) 16 4 (by decide) (by decide)).trans
        congr 1
        omega
      · simp only [layout, tagsegmentLayout, headerWords, length]
        rw [← UInt32.ofNat_one, ← UInt32.ofNat_add, Nat.add_comm]

/-- A type that fits its field fits a word. -/
theorem Kind.Holds.typeSmall {kind : Kind} {label : Label} {type words : Nat}
    (holds : kind.Holds label type words) : type < 2 ^ 32 := by
  cases kind <;> simp only [Kind.Holds] at holds <;> omega

theorem Kind.headerWords_pos (kind : Kind) : 0 < kind.headerWords := by
  cases kind <;> decide

/-! ### Leaves -/

/-- Copying words is reversing single bytes. -/
theorem byteNoSwap32_eq (memory : Mem) (src elements : Nat) (dst : Option Nat) :
    byteNoSwap32 memory src elements dst = byteSwap 1 memory src (4 * elements) dst := by
  rw [byteNoSwap32, byteSwap, Radix.reverseEach_one, Nat.one_mul,
    List.take_of_length_le (Memory.read_length _ _ _).le]

section

variable (host : ByteOrder) (swapAll : SwapAll)

/-- All leaves, by the width and the number of the elements. -/
theorem swapData_leaf {code : Nat} (isLeaf : IsLeaf code) (small : code < 2 ^ 32) (fuel : Nat)
    (memory : Mem) (src : Nat) (length : UInt32) (toLocal : Bool) (dst : Option Nat) :
    swapData host swapAll (fuel + 1) memory (some src) (UInt32.ofNat code) length toLocal dst =
      some (byteSwap (leafWidth code) memory src (leafCount code length.toNat) dst) := by
  have double : (2 * length).toNat = 2 * length.toNat % 2 ^ 32 := UInt32.toNat_mul _ _
  have half : (length / 2).toNat = length.toNat / 2 := UInt32.toNat_div _ _
  have isCode (word : UInt32) : UInt32.ofNat code = word ↔ code = word.toNat := by
    rw [UInt32.ofNat_eq_iff_mod_eq_toNat, Nat.mod_eq_of_lt small]
  simp only [IsLeaf, List.mem_cons, List.not_mem_nil, or_false, not_or] at isLeaf
  simp only [swapData, isCode, UInt32.reduceToNat, isLeaf, or_self, if_false, byteSwap32,
    byteSwap16, byteSwap64, double, half, byteNoSwap32_eq, leafWidth, leafCount]
  -- the code looks for bytes before it looks for shorts
  split_ifs <;> first | rfl | omega

/-- A leaf lays its cells over the destination. -/
theorem byteSwap_leaf {code : Nat} {stored : List UInt8} (wholeWords : 4 ∣ stored.length)
    (order : ByteOrder) {memory : Mem} {src : Nat}
    (held : memory.read src stored.length = stored) (dst : Option Nat) :
    byteSwap (leafWidth code) memory src (leafCount code (stored.length / 4)) dst =
      memory.overlay (dst.getD src) ((RawContent.leaf code stored).written order) := by
  have inside := leafWidth_mul_leafCount_le code wholeWords
  rw [byteSwap, Memory.read_take held inside, Radix.reverseEach_take _ le_rfl, RawContent.written,
    ← Memory.overlay_append, Memory.overlay_replicate_none, Memory.overlay_map_some]

/-! ### In place or apart -/

/-- There is no destination, or one that does not overlap the source. -/
def Apart (src : Nat) (dst : Option Nat) (size : Nat) : Prop :=
  ∀ dest, dst = some dest → dest + size ≤ src ∨ src + size ≤ dest

theorem apart_none (src size : Nat) : Apart src none size := by
  intro dest absent
  cases absent

theorem Apart.part {src size : Nat} {dst : Option Nat} (apart : Apart src dst size)
    {offset count : Nat} (inside : offset + count ≤ size) :
    Apart (src + offset) (dst.map (· + offset)) count := by
  intro dest isDest
  rcases Option.map_eq_some_iff.mp isDest with ⟨start, isStart, rfl⟩
  have disjoint := apart start isStart
  omega

/-- What is written lies before what is still to be read. -/
theorem Apart.behind {src size : Nat} {dst : Option Nat} (apart : Apart src dst size)
    (offset : Nat) {count later rest : Nat} (before : offset + count ≤ later)
    (inside : later + rest ≤ size) :
    src + later + rest ≤ dst.getD src + offset ∨ dst.getD src + offset + count ≤ src + later := by
  cases dst with
  | none =>
      rw [Option.getD_none]
      omega
  | some dest =>
      have disjoint := apart dest rfl
      rw [Option.getD_some]
      omega

theorem getD_map_add (dst : Option Nat) (src offset : Nat) :
    (dst.map (· + offset)).getD (src + offset) = dst.getD src + offset := by
  cases dst <;> rfl

/-! ### Structures and containers -/

/-- The order of a buffer that is to be swapped. -/
def source (toLocal : Bool) : ByteOrder :=
  if toLocal then host.opposite else host

@[simp] theorem source_true : source host true = host.opposite := rfl

@[simp] theorem source_false : source host false = host := rfl

/-- The words on the local side of a swap are the header. -/
theorem words_local {toLocal : Bool} {values : List Nat} {memory swapped : Mem} {src target : Nat}
    (held : memory.read src (4 * values.length) = Radix.encode (source host toLocal) 4 values)
    (left : swapped.read target (4 * values.length) =
      Radix.encode (source host toLocal).opposite 4 values) {index : Nat}
    (inside : index < values.length) :
    (if toLocal then words host swapped target else words host memory src) index =
      UInt32.ofNat values[index] := by
  cases toLocal with
  | true =>
      rw [source_true, ByteOrder.opposite_opposite] at left
      exact words_eq left inside
  | false => exact words_eq held inside

/-- Swapping a structure swaps its header and then, with the length and type
written there, its data. -/
theorem swapStructure_header {kind : Kind} {label : Label} {type size : Nat}
    (holds : kind.Holds label type size) {toLocal : Bool} {memory : Mem} {buf : Nat}
    (held : memory.read buf (4 * kind.headerWords) = Radix.encode (source host toLocal) 4
      (kind.header label type size)) (dest : Option Nat) (fuel : Nat) :
    swapStructure host swapAll kind.layout (fuel + 1) memory (some buf) toLocal dest =
      swapData host swapAll fuel
        (memory.write (dest.getD buf) (Radix.encode (source host toLocal).opposite 4
          (kind.header label type size)))
        (some (buf + 4 * kind.headerWords)) (UInt32.ofNat type) (UInt32.ofNat size) toLocal
        (dest.map (· + 4 * kind.headerWords)) := by
  have words := kind.header_length label type size
  have swapped : byteSwap32 memory buf kind.headerWords dest =
      memory.write (dest.getD buf) (Radix.encode (source host toLocal).opposite 4
        (kind.header label type size)) := by
    rw [byteSwap32, byteSwap, held, ← words, Radix.reverseEach_encode]
  have back := Memory.read_write_self memory (dest.getD buf)
    (Radix.encode (source host toLocal).opposite 4 (kind.header label type size))
  rw [Radix.encode_length] at back
  rw [← words] at held
  have read := Kind.layout_header holds fun index inside => words_local host held back inside
  rw [swapStructure, Kind.layout_headerWords, swapped]
  rw [read.1, read.2.1]

/-- The loop that a container type selects. -/
theorem swapData_container (type : ContainerType) (fuel : Nat) (memory : Mem) (src : Nat)
    (length : UInt32) (toLocal : Bool) (dst : Option Nat) :
    swapData host swapAll (fuel + 1) memory (some src) (UInt32.ofNat type.code) length toLocal
      dst = swapFragments host swapAll type.kind.layout fuel memory src length toLocal dst 0 := by
  cases type <;> rfl

/-- The cells that a structure lays over its destination. -/
def structureWritten (order : ByteOrder) (kind : Kind) (label : Label) (content : RawContent) :
    List (Option UInt8) :=
  (Radix.encode order.opposite 4 (kind.header label content.typeCode content.words)).map some ++
    content.written order

theorem structureWritten_length (order : ByteOrder) (kind : Kind) (label : Label)
    {content : RawContent} (fits : content.Fits) :
    (structureWritten order kind label content).length =
      4 * (kind.headerWords + content.words) := by
  rw [structureWritten, List.length_append, List.length_map, Radix.encode_length,
    Kind.header_length, RawContent.written_length order fits, Nat.mul_add]

/-- A structure whose data can be swapped can be swapped. -/
theorem swapStructure_written {toLocal : Bool} {kind : Kind} {label : Label} {content : RawContent}
    (holds : kind.Holds label content.typeCode content.words) (fits : content.Fits) {fuel : Nat}
    (dataSwapped : ∀ {memory : Mem} {src : Nat} {dst : Option Nat},
      Apart src dst (4 * content.words) →
      memory.read src (4 * content.words) = content.bytes (source host toLocal) →
      swapData host swapAll fuel memory (some src) (UInt32.ofNat content.typeCode)
        (UInt32.ofNat content.words) toLocal dst =
          some (memory.overlay (dst.getD src) (content.written (source host toLocal))))
    {memory : Mem} {buf : Nat} {dest : Option Nat}
    (apart : Apart buf dest (4 * (kind.headerWords + content.words)))
    (held : memory.read buf (4 * (kind.headerWords + content.words)) =
      Radix.encode (source host toLocal) 4 (kind.header label content.typeCode content.words) ++
        content.bytes (source host toLocal)) :
    swapStructure host swapAll kind.layout (fuel + 1) memory (some buf) toLocal dest =
      some (memory.overlay (dest.getD buf)
        (structureWritten (source host toLocal) kind label content)) := by
  have size (order : ByteOrder) : (Radix.encode order 4
      (kind.header label content.typeCode content.words)).length = 4 * kind.headerWords := by
    rw [Radix.encode_length, Kind.header_length]
  have headerHeld := (Memory.read_split held).1
  have dataHeld := (Memory.read_split held).2
  rw [size] at headerHeld dataHeld
  rw [RawContent.bytes_length _ fits] at dataHeld
  rw [Nat.mul_add] at apart
  have clear := apart.behind 0 (Nat.zero_add (4 * kind.headerWords)).le le_rfl
  rw [Nat.add_zero] at clear
  have stays : (memory.write (dest.getD buf) (Radix.encode (source host toLocal).opposite 4
      (kind.header label content.typeCode content.words))).read (buf + 4 * kind.headerWords)
        (4 * content.words) = content.bytes (source host toLocal) := by
    rw [Memory.read_write_disjoint _ _ _ (by rw [size]; exact clear), dataHeld]
  rw [swapStructure_header host swapAll holds headerHeld, dataSwapped (apart.part le_rfl) stays,
    getD_map_add, ← Memory.overlay_map_some, ← size (source host toLocal).opposite,
    ← List.length_map (f := some), Memory.overlay_append]
  rfl

/-- The loop steps over the structure it has swapped; its length is read on the
local side of the swap. -/
theorem fragmentLength_eq {toLocal : Bool} {kind : Kind} {label : Label} {content : RawContent}
    (holds : kind.Holds label content.typeCode content.words) {memory : Mem}
    {src done total : Nat} {data : List UInt8}
    (held : memory.read (src + 4 * done) total =
      Radix.encode (source host toLocal) 4
        (kind.header label content.typeCode content.words) ++ data) (target : Nat) :
    kind.layout.fragmentLength
      (if toLocal then
        words host (memory.overlay (target + 4 * done)
          (structureWritten (source host toLocal) kind label content)) target done
      else words host memory src done) = UInt32.ofNat (kind.headerWords + content.words) := by
  have header := (Memory.read_split held).1
  rw [Radix.encode_length] at header
  have back := Memory.read_write_self memory (target + 4 * done)
    (Radix.encode (source host toLocal).opposite 4
      (kind.header label content.typeCode content.words))
  rw [Radix.encode_length] at back
  have left : (memory.overlay (target + 4 * done)
      (structureWritten (source host toLocal) kind label content)).read (target + 4 * done)
        (4 * (kind.header label content.typeCode content.words).length) =
      Radix.encode (source host toLocal).opposite 4
        (kind.header label content.typeCode content.words) := by
    rw [structureWritten, ← Memory.overlay_append, Memory.read_overlay_disjoint _ _ _ (.inl _),
      Memory.overlay_map_some, back]
    simp
  have read := (Kind.layout_header holds fun index inside =>
    words_local host header left inside).2.2
  cases toLocal <;> exact read

mutual

/-- Swapping data lays its cells over the destination and touches nothing
else. -/
theorem swapData_written {toLocal : Bool} : ∀ {content : RawContent}, content.Fits →
    content.typeCode < 2 ^ 32 → content.words < 2 ^ 32 →
    ∀ {fuel : Nat}, content.cost ≤ fuel → ∀ {memory : Mem} {src : Nat} {dst : Option Nat},
    Apart src dst (4 * content.words) →
    memory.read src (4 * content.words) = content.bytes (source host toLocal) →
    swapData host swapAll fuel memory (some src) (UInt32.ofNat content.typeCode)
      (UInt32.ofNat content.words) toLocal dst =
        some (memory.overlay (dst.getD src) (content.written (source host toLocal)))
  | .leaf code stored, fits, typeSmall, small, fuel, enough, memory, src, dst, _, held => by
      rcases Nat.exists_eq_add_of_le' enough with ⟨fuel, rfl⟩
      rw [RawContent.words, Nat.mul_div_cancel' fits.2.1, RawContent.bytes] at held
      rw [RawContent.typeCode, RawContent.cost, swapData_leaf host swapAll fits.1 typeSmall,
        toNat_ofNat small, RawContent.words, byteSwap_leaf fits.2.1 _ held]
  | .container type children, fits, _, small, fuel, enough, memory, src, dst, apart, held => by
      rcases Nat.exists_eq_add_of_le' enough with ⟨fuel, rfl⟩
      rw [RawContent.typeCode, RawContent.cost, Nat.add_comm 1, ← Nat.add_assoc,
        swapData_container]
      exact swapFragments_written fits (Nat.zero_add _) small (Nat.le_add_left _ _) apart held

/-- Swapping the rest of a container. -/
theorem swapFragments_written {toLocal : Bool} {kind : Kind} : ∀ {forest : RawForest},
    forest.Fits kind → ∀ {done length : Nat}, done + forest.words kind = length →
    length < 2 ^ 32 → ∀ {fuel : Nat}, forest.cost ≤ fuel →
    ∀ {memory : Mem} {src : Nat} {dst : Option Nat}, Apart src dst (4 * length) →
    memory.read (src + 4 * done) (4 * forest.words kind) =
      forest.bytes (source host toLocal) kind →
    swapFragments host swapAll kind.layout fuel memory src (UInt32.ofNat length) toLocal dst
      (UInt32.ofNat done) =
        some (memory.overlay (dst.getD src + 4 * done)
          (forest.written (source host toLocal) kind))
  | .nil, fits, done, length, total, small, fuel, enough, memory, src, dst, _, held => by
      rcases Nat.exists_eq_add_of_le' enough with ⟨fuel, rfl⟩
      have finished : ¬ UInt32.ofNat done < UInt32.ofNat length := by
        rw [← total]
        exact UInt32.lt_irrefl _
      rw [RawForest.cost, swapFragments, if_neg finished, RawForest.written, Memory.overlay_nil]
  | .cons label content rest, ⟨holds, contentFits, restFits⟩, done, length, total, small, fuel,
      enough, memory, src, dst, apart, held => by
      obtain ⟨fuel, rfl⟩ : ∃ more, fuel = more + 2 := ⟨fuel - 2, by
        rw [RawForest.cost] at enough
        omega⟩
      rw [RawForest.cost] at enough
      rw [RawForest.words] at total held
      rw [RawForest.bytes] at held
      have positive := kind.headerWords_pos
      have doneSmall : (UInt32.ofNat done).toNat = done := toNat_ofNat (by omega)
      have more : UInt32.ofNat done < UInt32.ofNat length := by
        rw [UInt32.lt_iff_toNat_lt, doneSmall, toNat_ofNat small]
        omega
      have firstHeld := (Memory.read_split held).1
      have restHeld := (Memory.read_split held).2
      rw [List.length_append, Radix.encode_length, Kind.header_length,
        RawContent.bytes_length _ contentFits, ← Nat.mul_add] at firstHeld restHeld
      rw [RawForest.bytes_length _ restFits] at restHeld
      have first := swapStructure_written host swapAll holds contentFits
        (swapData_written contentFits holds.typeSmall (by omega)
          (show content.cost ≤ fuel by omega))
        (apart.part (show 4 * done + 4 * (kind.headerWords + content.words) ≤ 4 * length by omega))
        firstHeld
      rw [getD_map_add] at first
      have step := fragmentLength_eq host holds firstHeld (dst.getD src)
      have size := structureWritten_length (source host toLocal) kind label contentFits
      have behind (start : Nat) : start + 4 * (done + (kind.headerWords + content.words)) =
          start + 4 * done + 4 * (kind.headerWords + content.words) := by
        ring
      have clear := apart.behind (4 * done)
        (le_refl (4 * done + 4 * (kind.headerWords + content.words)))
        (show _ + 4 * rest.words kind ≤ _ by omega)
      rw [swapFragments, if_pos more, doneSmall, first]
      dsimp only
      rw [step, ← UInt32.ofNat_add, swapFragments_written restFits (by omega) small
        (show rest.cost ≤ fuel + 1 by omega) apart, behind, ← size, Memory.overlay_append]
      · rfl
      · rw [behind, Memory.read_overlay_disjoint _ _ _ (by rw [size, add_assoc src]; exact clear),
          restHeld]

end

end

/-! ### Banks -/

/-- A well-formed bank. -/
structure RawBank where
  label : Label
  content : RawContent
  holds : Kind.bank.Holds label content.typeCode content.words
  fits : content.Fits

/-- The length in words, with the header. -/
def RawBank.words (bank : RawBank) : Nat :=
  2 + bank.content.words

def RawBank.bytes (bank : RawBank) (order : ByteOrder) : List UInt8 :=
  Radix.encode order 4 (Kind.bank.header bank.label bank.content.typeCode bank.content.words) ++
    bank.content.bytes order

/-- What is written in the place of every byte of a bank in this order. -/
def RawBank.written (bank : RawBank) (order : ByteOrder) : List (Option UInt8) :=
  structureWritten order .bank bank.label bank.content

theorem RawBank.bytes_length (bank : RawBank) (order : ByteOrder) :
    (bank.bytes order).length = 4 * bank.words := by
  rw [RawBank.bytes, List.length_append, Radix.encode_length, Kind.header_length,
    RawContent.bytes_length order bank.fits, RawBank.words, Nat.mul_add]
  rfl

theorem RawBank.written_length (bank : RawBank) (order : ByteOrder) :
    (bank.written order).length = 4 * bank.words :=
  structureWritten_length order .bank bank.label bank.fits

/-- Swapping a bank returns, and lays its cells over the buffer or over a
separate destination. -/
theorem swapBank_written (host : ByteOrder) (swapAll : SwapAll) (bank : RawBank) {toLocal : Bool}
    {memory : Mem} {buf : Nat} {dest : Option Nat} (apart : Apart buf dest (4 * bank.words))
    (held : memory.read buf (4 * bank.words) = bank.bytes (source host toLocal)) {fuel : Nat}
    (enough : bank.content.cost + 1 ≤ fuel) :
    swapBank host swapAll fuel memory (some buf) toLocal dest =
      some (memory.overlay (dest.getD buf) (bank.written (source host toLocal))) := by
  obtain ⟨fuel, rfl⟩ : ∃ less, fuel = less + 1 := ⟨fuel - 1, by omega⟩
  have small : bank.content.words < 2 ^ 32 := by
    have holds := bank.holds
    simp only [Kind.Holds] at holds
    omega
  exact swapStructure_written host swapAll bank.holds bank.fits
    (swapData_written host swapAll bank.fits bank.holds.typeSmall small (by omega)) apart held

end Dift.Evio
