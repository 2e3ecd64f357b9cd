import Dift.Evio.Raw

/-!
Owns what swapping touches: `swapBank` with a record of every stretch of memory
that is read or written. Nothing compares the length words of nested structures
with the data they stand in, so that a malformed one leads out of the buffer.
When every structure ends inside its container the swap ends too, and touches
nothing outside the bank, whatever the types are.
-/

namespace Dift.Evio

open Dift.Foundation
open Dift.Wire

/-! ### Recording what is touched -/

/-- Bytes that are read or written. -/
structure Access where
  start : Nat
  count : Nat
deriving DecidableEq, Repr

/-- What a routine of `ByteOrder` touches: the elements it is told to, where they
are and where they go. -/
def elementAccesses (width src elements : Nat) (dst : Option Nat) : List Access :=
  [⟨src, width * elements⟩, ⟨dst.getD src, width * elements⟩]

section

variable (host : ByteOrder) (swapAll : SwapAll)
  (swapAllAccesses : Nat → Option Nat → UInt32 → List Access)

mutual

/-- `swapStructure` with what it touches. -/
def traceStructure (layout : Layout) :
    Nat → Mem → Option Nat → Bool → Option Nat → Option (Mem × List Access)
  | 0, _, _, _, _ => none
  | _ + 1, memory, none, _, _ => some (memory, [])
  | fuel + 1, memory, some buf, toLocal, dest =>
      let swapped := byteSwap32 memory buf layout.headerWords dest
      let p := if toLocal then words host swapped (dest.getD buf) else words host memory buf
      let header : Access :=
        ⟨if toLocal then dest.getD buf else buf, 4 * layout.headerWords⟩
      (traceData fuel swapped (some (buf + 4 * layout.headerWords)) (layout.dataType p)
        (layout.dataLength p) toLocal (dest.map (· + 4 * layout.headerWords))).map
          fun traced => (traced.1,
            elementAccesses 4 buf layout.headerWords dest ++ header :: traced.2)

/-- `swapData` with what it touches. -/
def traceData :
    Nat → Mem → Option Nat → UInt32 → UInt32 → Bool → Option Nat → Option (Mem × List Access)
  | 0, _, _, _, _, _, _ => none
  | _ + 1, memory, none, _, _, _, _ => some (memory, [])
  | fuel + 1, memory, some src, type, length, toLocal, dst =>
      if type = 0x1 ∨ type = 0x2 ∨ type = 0xb then
        some (byteSwap32 memory src length.toNat dst, elementAccesses 4 src length.toNat dst)
      else if type = 0x0 ∨ type = 0x3 ∨ type = 0x6 ∨ type = 0x7 then
        some (byteNoSwap32 memory src length.toNat dst, elementAccesses 4 src length.toNat dst)
      else if type = 0x4 ∨ type = 0x5 then
        some (byteSwap16 memory src (2 * length).toNat dst,
          elementAccesses 2 src (2 * length).toNat dst)
      else if type = 0x8 ∨ type = 0x9 ∨ type = 0xa then
        some (byteSwap64 memory src (length / 2).toNat dst,
          elementAccesses 8 src (length / 2).toNat dst)
      else if type = 0xf then
        some (swapAll memory src dst length (!toLocal), swapAllAccesses src dst length)
      else if type = 0xe ∨ type = 0x10 then
        traceFragments bankLayout fuel memory src length toLocal dst 0
      else if type = 0xd ∨ type = 0x20 then
        traceFragments segmentLayout fuel memory src length toLocal dst 0
      else if type = 0xc then
        traceFragments tagsegmentLayout fuel memory src length toLocal dst 0
      else
        some (byteNoSwap32 memory src length.toNat dst, elementAccesses 4 src length.toNat dst)

/-- `swapFragments` with what it touches. -/
def traceFragments (layout : Layout) :
    Nat → Mem → Nat → UInt32 → Bool → Option Nat → UInt32 → Option (Mem × List Access)
  | 0, _, _, _, _, _, _ => none
  | fuel + 1, memory, src, length, toLocal, dst, l =>
      if l < length then
        match traceStructure layout fuel memory (some (src + 4 * l.toNat)) toLocal
            (dst.map (· + 4 * l.toNat)) with
        | none => none
        | some (swapped, accesses) =>
            let word :=
              if toLocal then words host swapped (dst.getD src) l.toNat
              else words host memory src l.toNat
            let read : Access := ⟨(if toLocal then dst.getD src else src) + 4 * l.toNat, 4⟩
            (traceFragments layout fuel swapped src length toLocal dst
              (l + layout.fragmentLength word)).map
                fun traced => (traced.1, accesses ++ read :: traced.2)
      else some (memory, [])

end

/-- `swapBank` with what it touches. -/
def traceBank : Nat → Mem → Option Nat → Bool → Option Nat → Option (Mem × List Access) :=
  traceStructure host swapAll swapAllAccesses bankLayout

/-- The record is taken of the code as it is. -/
theorem trace_fst (fuel : Nat) :
    (∀ layout memory buf toLocal dest,
      (traceStructure host swapAll swapAllAccesses layout fuel memory buf toLocal dest).map
          Prod.fst =
        swapStructure host swapAll layout fuel memory buf toLocal dest) ∧
    (∀ memory src type length toLocal dst,
      (traceData host swapAll swapAllAccesses fuel memory src type length toLocal dst).map
          Prod.fst =
        swapData host swapAll fuel memory src type length toLocal dst) ∧
    (∀ layout memory src length toLocal dst l,
      (traceFragments host swapAll swapAllAccesses layout fuel memory src length toLocal dst l).map
          Prod.fst =
        swapFragments host swapAll layout fuel memory src length toLocal dst l) := by
  induction fuel with
  | zero =>
      refine ⟨?_, ?_, ?_⟩
      · intros
        simp [traceStructure, swapStructure]
      · intros
        simp [traceData, swapData]
      · intros
        simp [traceFragments, swapFragments]
  | succ fuel inductionHypothesis =>
      rcases inductionHypothesis with ⟨structures, data, fragments⟩
      refine ⟨?_, ?_, ?_⟩
      · intro layout memory buf toLocal dest
        cases buf with
        | none => simp [traceStructure, swapStructure]
        | some buf =>
            rw [traceStructure, swapStructure, ← data, Option.map_map]
            rfl
      · intro memory src type length toLocal dst
        cases src with
        | none => simp [traceData, swapData]
        | some src =>
            rw [traceData, swapData]
            simp only [← fragments]
            split_ifs <;> rfl
      · intro layout memory src length toLocal dst l
        rw [traceFragments, swapFragments, ← structures]
        by_cases more : l < length
        · rw [if_pos more, if_pos more]
          cases traceStructure host swapAll swapAllAccesses layout fuel memory
              (some (src + 4 * l.toNat)) toLocal (dst.map (· + 4 * l.toNat)) with
          | none => rfl
          | some traced =>
              simp only [Option.map_some]
              rw [← fragments, Option.map_map]
              rfl
        · rw [if_neg more, if_neg more]
          rfl

end

/-! ### Nested structures -/

/-- The length of a structure with its header, by its first word. -/
def Kind.fragmentWords (kind : Kind) (word : UInt32) : Nat :=
  (kind.layout.fragmentLength word).toNat

/-- Positions and lengths are counted in words. -/
inductive Part where
  | data (type : UInt32) (src length : Nat)
  | fragments (kind : Kind) (src length : Nat)

/-- No data is composite, and every structure in a container leaves room for its
header and ends inside the container. -/
inductive Nested (w : Nat → UInt32) : Part → Prop where
  | leaf {type : UInt32} {src length : Nat} (isLeaf : IsLeaf type.toNat) :
      Nested w (.data type src length)
  | container {type : ContainerType} {src length : Nat}
      (tiled : Nested w (.fragments type.kind src length)) :
      Nested w (.data (UInt32.ofNat type.code) src length)
  | nil {kind : Kind} {src : Nat} : Nested w (.fragments kind src 0)
  | cons {kind : Kind} {src length : Nat}
      (header : kind.headerWords ≤ kind.fragmentWords (w src))
      (inside : kind.fragmentWords (w src) ≤ length)
      (data : Nested w (.data (kind.layout.dataType fun index => w (src + index))
        (src + kind.headerWords) (kind.fragmentWords (w src) - kind.headerWords)))
      (rest : Nested w (.fragments kind (src + kind.fragmentWords (w src))
        (length - kind.fragmentWords (w src)))) :
      Nested w (.fragments kind src length)

/-- The data of a structure is what its header leaves of it. -/
theorem Kind.dataLength_eq {kind : Kind} {p : Nat → UInt32}
    (header : kind.headerWords ≤ kind.fragmentWords (p 0)) :
    kind.layout.dataLength p = UInt32.ofNat (kind.fragmentWords (p 0) - kind.headerWords) := by
  have small (word : UInt32) : (word &&& 0xffff).toNat ≤ 0xffff := by
    rw [UInt32.toNat_and]
    exact Nat.and_le_right
  have bound := (p 0).toNat_lt
  apply UInt32.toNat_inj.mp
  cases kind with
  | bank =>
      simp only [fragmentWords, layout, bankLayout, headerWords, UInt32.toNat_add,
        UInt32.toNat_sub, UInt32.toNat_ofNat', UInt32.toNat_one] at header ⊢
      omega
  | segment =>
      have low := small (p 0)
      simp only [fragmentWords, layout, segmentLayout, headerWords, UInt32.toNat_add,
        UInt32.toNat_ofNat', UInt32.toNat_one] at header ⊢
      omega
  | tagsegment =>
      have low := small (p 0)
      simp only [fragmentWords, layout, tagsegmentLayout, headerWords, UInt32.toNat_add,
        UInt32.toNat_ofNat', UInt32.toNat_one] at header ⊢
      omega

/-- The type stands in the header. -/
theorem Kind.dataType_congr {kind : Kind} {p q : Nat → UInt32}
    (same : ∀ index < kind.headerWords, p index = q index) :
    kind.layout.dataType p = kind.layout.dataType q := by
  cases kind with
  | bank => simp only [layout, bankLayout, same 1 (by decide)]
  | segment => simp only [layout, segmentLayout, same 0 (by decide)]
  | tagsegment => simp only [layout, tagsegmentLayout, same 0 (by decide)]

/-! ### Words -/

theorem words_add (order : ByteOrder) (memory : Mem) (buf first index : Nat) :
    words order memory (buf + 4 * first) index = words order memory buf (first + index) := by
  rw [words, words, Nat.mul_add, Nat.add_assoc]

theorem words_congr {order : ByteOrder} {left right : Mem} {p index : Nat}
    (agree : ∀ address, p + 4 * index ≤ address → address < p + 4 * index + 4 →
      left address = right address) : words order left p index = words order right p index := by
  rw [words, words, load32, load32, Memory.read_congr agree]

/-- The words on the local side of the swap of a header are those of the buffer. -/
theorem words_swapped (host : ByteOrder) (toLocal : Bool) (memory : Mem) {p count index : Nat}
    (inside : index < count) :
    (if toLocal then words host (byteSwap32 memory p count none) p else words host memory p)
        index = words (source host toLocal) memory p index := by
  rcases Radix.exists_encode (source host toLocal) 4 count (Memory.read_length memory p (4 * count))
    with ⟨values, rfl, held⟩
  have swapped : byteSwap32 memory p values.length none =
      memory.write p (Radix.encode (source host toLocal).opposite 4 values) := by
    rw [byteSwap32, byteSwap, held, Radix.reverseEach_encode, Option.getD_none]
  have back := Memory.read_write_self memory p
    (Radix.encode (source host toLocal).opposite 4 values)
  rw [Radix.encode_length, ← swapped] at back
  rw [words_local host held back inside, words_eq held inside]

/-! ### Staying inside -/

/-- All that is touched lies in a stretch of words from a position on, and nothing
outside changes. -/
structure Stays (buf src length : Nat) (memory result : Mem) (accesses : List Access) : Prop where
  within : ∀ access ∈ accesses, buf + 4 * src ≤ access.start ∧
    access.start + access.count ≤ buf + 4 * (src + length)
  outside : ∀ address, address < buf + 4 * src ∨ buf + 4 * (src + length) ≤ address →
    result address = memory address

/-- The words of a stretch. -/
def Held (order : ByteOrder) (memory : Mem) (buf : Nat) (w : Nat → UInt32) (src length : Nat) :
    Prop :=
  ∀ index, src ≤ index → index < src + length → words order memory buf index = w index

theorem Held.part {order : ByteOrder} {memory : Mem} {buf : Nat} {w : Nat → UInt32}
    {src length first count : Nat} (held : Held order memory buf w src length)
    (atLeast : src ≤ first) (within : first + count ≤ src + length) :
    Held order memory buf w first count :=
  fun index lower upper => held index (atLeast.trans lower) (upper.trans_le within)

/-- What is outside of where the memory has changed is still held. -/
theorem Held.of_stays {order : ByteOrder} {memory result : Mem} {buf : Nat} {w : Nat → UInt32}
    {src length first count : Nat} {accesses : List Access}
    (held : Held order memory buf w first count)
    (stays : Stays buf src length memory result accesses)
    (apart : first + count ≤ src ∨ src + length ≤ first) :
    Held order result buf w first count := by
  intro index lower upper
  rw [← held index lower upper]
  exact words_congr fun address atLeast below => stays.outside address (by omega)

theorem Stays.refl (buf src length : Nat) (memory : Mem) : Stays buf src length memory memory [] :=
  ⟨nofun, fun _ _ => rfl⟩

/-- A stretch is as good as any part of it. -/
theorem Stays.widen {buf src length first count : Nat} {memory result : Mem}
    {accesses : List Access} (stays : Stays buf first count memory result accesses)
    (atLeast : src ≤ first) (within : first + count ≤ src + length) :
    Stays buf src length memory result accesses where
  within access member := by
    have bounds := stays.within access member
    omega
  outside address apart := stays.outside address (by omega)

theorem Stays.trans {buf src length : Nat} {memory middle result : Mem}
    {first second : List Access} (before : Stays buf src length memory middle first)
    (after : Stays buf src length middle result second) :
    Stays buf src length memory result (first ++ second) where
  within access member :=
    (List.mem_append.mp member).elim (before.within access) (after.within access)
  outside address apart := (after.outside address apart).trans (before.outside address apart)

/-- Reading touches only what is read. -/
theorem Stays.read {buf src length : Nat} {memory result : Mem} {accesses : List Access}
    (stays : Stays buf src length memory result accesses) {access : Access}
    (atLeast : buf + 4 * src ≤ access.start)
    (within : access.start + access.count ≤ buf + 4 * (src + length)) :
    Stays buf src length memory result (access :: accesses) where
  within other member := by
    rcases List.mem_cons.mp member with rfl | later
    · exact ⟨atLeast, within⟩
    · exact stays.within other later
  outside := stays.outside

/-- Reversing elements in place touches them only. -/
theorem stays_byteSwap {width elements buf src length : Nat}
    (inside : width * elements ≤ 4 * length) (memory : Mem) :
    Stays buf src length memory (byteSwap width memory (buf + 4 * src) elements none)
      (elementAccesses width (buf + 4 * src) elements none) where
  within access member := by
    rw [elementAccesses, Option.getD_none, List.mem_pair, or_self] at member
    rw [member]
    dsimp only
    omega
  outside address apart := by
    have size := @Radix.reverseEach_length width elements
      (memory.read (buf + 4 * src) (width * elements)) (Memory.read_length _ _ _).ge
    rw [byteSwap, Option.getD_none]
    exact Memory.write_outside _ _ _ (by rw [size]; omega)

section

variable (host : ByteOrder) (swapAll : SwapAll)
  (swapAllAccesses : Nat → Option Nat → UInt32 → List Access)

/-- The data of a leaf is touched as elements inside of it. -/
theorem traceData_leaf {type : UInt32} (isLeaf : IsLeaf type.toNat) (memory : Mem)
    {buf src length : Nat} (small : length < 2 ^ 32) (toLocal : Bool) :
    ∃ result accesses, (∀ fuel, traceData host swapAll swapAllAccesses (fuel + 1) memory
        (some (buf + 4 * src)) type (UInt32.ofNat length) toLocal none = some (result, accesses)) ∧
      Stays buf src length memory result accesses := by
  have size := toNat_ofNat small
  have double : (2 * UInt32.ofNat length).toNat = 2 * length % 2 ^ 32 := by
    rw [UInt32.toNat_mul, size]
    rfl
  have half : (UInt32.ofNat length / 2).toNat = length / 2 := by
    rw [UInt32.toNat_div, size]
    rfl
  have other (word : UInt32) (among : word.toNat ∈ [0xc, 0xd, 0xe, 0xf, 0x10, 0x20]) :
      type ≠ word := by
    rintro rfl
    exact isLeaf among
  have copied : Stays buf src length memory
      (byteNoSwap32 memory (buf + 4 * src) (UInt32.ofNat length).toNat none)
      (elementAccesses 4 (buf + 4 * src) (UInt32.ofNat length).toNat none) := by
    have single := @stays_byteSwap 1 (4 * length) buf src length (by omega) memory
    rw [size, byteNoSwap32_eq]
    simpa [elementAccesses] using single
  have words : Stays buf src length memory
      (byteSwap32 memory (buf + 4 * src) (UInt32.ofNat length).toNat none)
      (elementAccesses 4 (buf + 4 * src) (UInt32.ofNat length).toNat none) :=
    stays_byteSwap (by rw [size]) memory
  have halves : Stays buf src length memory
      (byteSwap16 memory (buf + 4 * src) (2 * UInt32.ofNat length).toNat none)
      (elementAccesses 2 (buf + 4 * src) (2 * UInt32.ofNat length).toNat none) :=
    stays_byteSwap (by rw [double]; omega) memory
  have pairs : Stays buf src length memory
      (byteSwap64 memory (buf + 4 * src) (UInt32.ofNat length / 2).toNat none)
      (elementAccesses 8 (buf + 4 * src) (UInt32.ofNat length / 2).toNat none) :=
    stays_byteSwap (by rw [half]; omega) memory
  by_cases four : type = 0x1 ∨ type = 0x2 ∨ type = 0xb
  · exact ⟨_, _, fun fuel => by rw [traceData, if_pos four], words⟩
  by_cases one : type = 0x0 ∨ type = 0x3 ∨ type = 0x6 ∨ type = 0x7
  · exact ⟨_, _, fun fuel => by rw [traceData, if_neg four, if_pos one], copied⟩
  by_cases two : type = 0x4 ∨ type = 0x5
  · exact ⟨_, _, fun fuel => by rw [traceData, if_neg four, if_neg one, if_pos two], halves⟩
  by_cases eight : type = 0x8 ∨ type = 0x9 ∨ type = 0xa
  · refine ⟨_, _, fun fuel => ?_, pairs⟩
    rw [traceData, if_neg four, if_neg one, if_neg two, if_pos eight]
  refine ⟨_, _, fun fuel => ?_, copied⟩
  rw [traceData, if_neg four, if_neg one, if_neg two, if_neg eight, if_neg (other _ (by decide)),
    if_neg (not_or.mpr ⟨other _ (by decide), other _ (by decide)⟩),
    if_neg (not_or.mpr ⟨other _ (by decide), other _ (by decide)⟩), if_neg (other _ (by decide))]

/-- What swapping a part comes to when its words are as given. -/
def Part.Runs (toLocal : Bool) (buf : Nat) (w : Nat → UInt32) : Part → Prop
  | .data type src length => length < 2 ^ 32 → ∀ memory,
      Held (source host toLocal) memory buf w src length → ∃ enough result accesses,
        (∀ fuel ≥ enough, traceData host swapAll swapAllAccesses fuel memory
          (some (buf + 4 * src)) type (UInt32.ofNat length) toLocal none =
            some (result, accesses)) ∧ Stays buf src length memory result accesses
  | .fragments kind src length => ∀ {first done}, src = first + done → done + length < 2 ^ 32 →
      ∀ memory, Held (source host toLocal) memory buf w src length → ∃ enough result accesses,
        (∀ fuel ≥ enough, traceFragments host swapAll swapAllAccesses kind.layout fuel memory
          (buf + 4 * first) (UInt32.ofNat (done + length)) toLocal none (UInt32.ofNat done) =
            some (result, accesses)) ∧ Stays buf src length memory result accesses

/-- Swapping a structure whose data can be swapped stays inside of it, and leaves
its first word on the local side. -/
theorem traceStructure_runs {toLocal : Bool} {buf src size : Nat} {w : Nat → UInt32} {kind : Kind}
    (header : kind.headerWords ≤ size) (bound : size - kind.headerWords < 2 ^ 32)
    (dataLength : ∀ p : Nat → UInt32, p 0 = w src →
      kind.layout.dataLength p = UInt32.ofNat (size - kind.headerWords))
    (dataRuns : (Part.data (kind.layout.dataType fun index => w (src + index))
      (src + kind.headerWords) (size - kind.headerWords)).Runs host swapAll swapAllAccesses toLocal
        buf w) {memory : Mem} (held : Held (source host toLocal) memory buf w src size) :
    ∃ enough result accesses,
      (∀ fuel ≥ enough, traceStructure host swapAll swapAllAccesses kind.layout (fuel + 1) memory
        (some (buf + 4 * src)) toLocal none = some (result, accesses)) ∧
      Stays buf src size memory result accesses ∧
      (if toLocal then words host result buf else words host memory buf) src = w src := by
  have positive := kind.headerWords_pos
  let swapped := byteSwap32 memory (buf + 4 * src) kind.headerWords none
  let p := if toLocal then words host swapped (buf + 4 * src) else words host memory (buf + 4 * src)
  have isWord : ∀ index < kind.headerWords, p index = w (src + index) := by
    intro index inside
    rw [← held (src + index) (by omega) (by omega), ← words_add]
    exact words_swapped host toLocal memory inside
  have headerStays : Stays buf src kind.headerWords memory swapped
      (elementAccesses 4 (buf + 4 * src) kind.headerWords none) :=
    stays_byteSwap le_rfl memory
  have dataHeld := held.part (Nat.le_add_right src kind.headerWords)
    (by omega : src + kind.headerWords + (size - kind.headerWords) ≤ _)
  rcases dataRuns bound swapped (dataHeld.of_stays headerStays (Or.inr le_rfl)) with
    ⟨enough, result, accesses, traced, dataStays⟩
  have isFirst : p 0 = w src := isWord 0 positive
  have isLength := dataLength p isFirst
  have isType := Kind.dataType_congr isWord
  refine ⟨enough, result, elementAccesses 4 (buf + 4 * src) kind.headerWords none ++
    ⟨buf + 4 * src, 4 * kind.headerWords⟩ :: accesses, fun fuel more => ?_, ?_, ?_⟩
  · have data := traced fuel more
    rw [Nat.mul_add, ← Nat.add_assoc, ← isType, ← isLength] at data
    rw [traceStructure, Option.getD_none, Option.map_none, Kind.layout_headerWords, data, ite_self]
    rfl
  · refine (headerStays.widen le_rfl (by omega)).trans (Stays.read ?_ le_rfl ?_)
    · exact dataStays.widen (by omega) (by omega)
    · dsimp only
      omega
  · rw [← isFirst]
    cases toLocal with
    | true =>
        have same := words_add host swapped buf src 0
        rw [Nat.add_zero] at same
        refine Eq.trans ?_ same.symm
        exact words_congr fun address atLeast below => dataStays.outside address (by omega)
    | false =>
        have same := words_add host memory buf src 0
        rw [Nat.add_zero] at same
        exact same.symm

theorem Nested.runs {toLocal : Bool} {buf : Nat} {w : Nat → UInt32} {part : Part}
    (nested : Nested w part) :
    part.Runs host swapAll swapAllAccesses toLocal buf w := by
  induction nested with
  | leaf isLeaf =>
      intro small memory _
      rcases traceData_leaf host swapAll swapAllAccesses isLeaf memory small toLocal with
        ⟨result, accesses, traced, stays⟩
      refine ⟨1, result, accesses, fun fuel enough => ?_, stays⟩
      rcases Nat.exists_eq_add_of_le' enough with ⟨fuel, rfl⟩
      exact traced fuel
  | @container type src length tiled inductionHypothesis =>
      intro small memory held
      rcases @inductionHypothesis src 0 rfl (by omega) memory held with
        ⟨enough, result, accesses, traced, stays⟩
      refine ⟨enough + 1, result, accesses, fun fuel more => ?_, stays⟩
      rcases Nat.exists_eq_add_of_le' more with ⟨less, rfl⟩
      have loop := traced (less + enough) (by omega)
      rw [Nat.zero_add] at loop
      cases type <;> exact loop
  | nil =>
      intro first done isSrc small memory held
      refine ⟨1, memory, [], fun fuel enough => ?_, .refl _ _ _ _⟩
      rcases Nat.exists_eq_add_of_le' enough with ⟨fuel, rfl⟩
      rw [traceFragments, Nat.add_zero, if_neg (UInt32.lt_irrefl _)]
  | @cons kind src length header inside data rest dataRuns restRuns =>
      intro first done isSrc small memory held
      have positive := kind.headerWords_pos
      have bound : kind.fragmentWords (w src) < 2 ^ 32 := UInt32.toNat_lt _
      have dataLength (p : Nat → UInt32) (isFirst : p 0 = w src) :
          kind.layout.dataLength p =
            UInt32.ofNat (kind.fragmentWords (w src) - kind.headerWords) := by
        rw [← isFirst] at header ⊢
        exact Kind.dataLength_eq header
      rcases traceStructure_runs host swapAll swapAllAccesses header (by omega) dataLength dataRuns
        (held.part le_rfl (by omega)) with ⟨enough, middle, accesses, traced, stays, isFirst⟩
      have restHeld := held.part (Nat.le_add_right src (kind.fragmentWords (w src)))
        (by omega : src + kind.fragmentWords (w src) + (length - kind.fragmentWords (w src)) ≤ _)
      rcases @restRuns first (done + kind.fragmentWords (w src)) (by omega) (by omega) middle
        (restHeld.of_stays stays (Or.inr le_rfl)) with
        ⟨enoughRest, result, later, tracedRest, restStays⟩
      have doneSmall := toNat_ofNat (by omega : done < 2 ^ 32)
      have more : UInt32.ofNat done < UInt32.ofNat (done + length) := by
        rw [UInt32.lt_iff_toNat_lt, doneSmall, toNat_ofNat small]
        omega
      have place : buf + 4 * first + 4 * done = buf + 4 * src := by omega
      have behind : UInt32.ofNat done + kind.layout.fragmentLength (w src) =
          UInt32.ofNat (done + kind.fragmentWords (w src)) := by
        rw [UInt32.ofNat_add, Kind.fragmentWords, UInt32.ofNat_toNat]
      have total : done + kind.fragmentWords (w src) + (length - kind.fragmentWords (w src)) =
          done + length := by
        omega
      rw [total] at tracedRest
      refine ⟨enough + enoughRest + 2, result, accesses ++ ⟨buf + 4 * src, 4⟩ :: later,
        fun fuel large => ?_, ?_⟩
      · obtain ⟨less, rfl⟩ : ∃ less, fuel = less + 2 := ⟨fuel - 2, by omega⟩
        have structure' := traced less (by omega)
        have loop := tracedRest (less + 1) (by omega)
        have isWord : (if toLocal then words host middle (buf + 4 * first) done
            else words host memory (buf + 4 * first) done) = w src := by
          rw [← isFirst, words_add, words_add, isSrc]
          split_ifs <;> rfl
        rw [traceFragments, if_pos more, doneSmall, Option.map_none, place, structure']
        dsimp only
        rw [Option.getD_none, isWord, behind, loop, ite_self, place]
        rfl
      · refine (stays.widen le_rfl (by omega)).trans (Stays.read ?_ le_rfl ?_)
        · exact restStays.widen (by omega) (by omega)
        · dsimp only
          omega

/-- Swapping a bank in place ends, and touches no word behind the one whose index
is the length of the bank. -/
def SwapsInBounds (toLocal : Bool) (memory : Mem) (buf : Nat) : Prop :=
  ∃ enough result accesses,
    (∀ fuel ≥ enough,
      traceBank host swapAll swapAllAccesses fuel memory (some buf) toLocal none =
        some (result, accesses) ∧
      swapBank host swapAll fuel memory (some buf) toLocal none = some result) ∧
    ∀ access ∈ accesses, buf ≤ access.start ∧ access.start + access.count ≤
      buf + 4 * ((words (source host toLocal) memory buf 0).toNat + 1)

/-- A bank whose structures stay in their containers is swapped in its own words. -/
theorem swapBank_inBounds {toLocal : Bool} {memory : Mem} {buf : Nat}
    (positive : 1 ≤ (words (source host toLocal) memory buf 0).toNat)
    (nested : Nested (words (source host toLocal) memory buf)
      (.data (bankLayout.dataType (words (source host toLocal) memory buf)) 2
        ((words (source host toLocal) memory buf 0).toNat - 1))) :
    SwapsInBounds host swapAll swapAllAccesses toLocal memory buf := by
  have small := (words (source host toLocal) memory buf 0).toNat_lt
  have dataLength (p : Nat → UInt32) (isFirst : p 0 = words (source host toLocal) memory buf 0) :
      Kind.bank.layout.dataLength p = UInt32.ofNat
        ((words (source host toLocal) memory buf 0).toNat + 1 - Kind.bank.headerWords) := by
    rw [← isFirst] at positive ⊢
    apply UInt32.toNat_inj.mp
    have bound := (p 0).toNat_lt
    simp only [Kind.layout, bankLayout, Kind.headerWords, UInt32.toNat_sub, UInt32.toNat_ofNat',
      UInt32.toNat_one]
    omega
  have dataRuns : (Part.data
      (Kind.bank.layout.dataType fun index => words (source host toLocal) memory buf (0 + index))
      (0 + Kind.bank.headerWords)
      ((words (source host toLocal) memory buf 0).toNat + 1 - Kind.bank.headerWords)).Runs host
        swapAll swapAllAccesses toLocal buf (words (source host toLocal) memory buf) := by
    have runs := @Nested.runs host swapAll swapAllAccesses toLocal buf _ _ nested
    simp only [Nat.zero_add]
    exact runs
  have bound : (words (source host toLocal) memory buf 0).toNat + 1 - Kind.bank.headerWords <
      2 ^ 32 := by
    simp only [Kind.headerWords]
    omega
  rcases traceStructure_runs host swapAll swapAllAccesses (Nat.succ_le_succ positive) bound
    dataLength dataRuns (fun _ _ _ => rfl) with ⟨enough, result, accesses, traced, stays, -⟩
  refine ⟨enough + 1, result, accesses, fun fuel more => ?_, fun access member => ?_⟩
  · obtain ⟨less, rfl⟩ : ∃ less, fuel = less + 1 := ⟨fuel - 1, by omega⟩
    have trace := traced less (by omega)
    refine ⟨trace, ?_⟩
    have erased := (trace_fst host swapAll swapAllAccesses (less + 1)).1 bankLayout memory
      (some buf) toLocal none
    rw [swapBank, ← erased]
    exact congrArg (Option.map Prod.fst) trace
  · have bounds := stays.within access member
    omega

end

/-- Words in memory, least significant byte first. -/
def littleWords (values : List Nat) : Mem :=
  Memory.write (fun _ => 0) 0 (Radix.encode .little 4 values)

/-- A bank with a bank of one word in it. -/
theorem swapBank_inBounds_sample :
    SwapsInBounds .little (fun memory _ _ _ _ => memory) (fun _ _ _ => []) false
      (littleWords [4, 0x1000, 2, 0x0100, 7]) 0 := by
  have isType : bankLayout.dataType
      (words (source .little false) (littleWords [4, 0x1000, 2, 0x0100, 7]) 0) =
        UInt32.ofNat ContainerType.bank.code := by
    decide
  have isLength :
      (words (source .little false) (littleWords [4, 0x1000, 2, 0x0100, 7]) 0 0).toNat = 4 := by
    decide
  have inner : Kind.bank.fragmentWords
      (words (source .little false) (littleWords [4, 0x1000, 2, 0x0100, 7]) 0 2) = 3 := by
    decide
  refine swapBank_inBounds .little _ _ (by rw [isLength]; decide) ?_
  rw [isType, isLength]
  refine .container (.cons (inner ▸ by decide) (inner ▸ by decide) (.leaf (by decide)) ?_)
  show Nested _ (.fragments .bank (2 + Kind.bank.fragmentWords _)
    (4 - 1 - Kind.bank.fragmentWords _))
  rw [inner]
  exact .nil

/-- The bank inside says that it is longer than the one outside. -/
theorem not_swapsInBounds_longerInside :
    (words .little (littleWords [3, 0x1000, 5, 0x0100]) 0 0).toNat = 3 ∧
      ¬ SwapsInBounds .little (fun memory _ _ _ _ => memory) (fun _ _ _ => []) false
        (littleWords [3, 0x1000, 5, 0x0100]) 0 := by
  refine ⟨by decide, ?_⟩
  intro swaps
  obtain ⟨enough, result, accesses, ends, inBounds⟩ := swaps
  have touched (less : Nat) :
      (traceBank .little (fun memory _ _ _ _ => memory) (fun _ _ _ => []) (less + 5)
        (littleWords [3, 0x1000, 5, 0x0100]) (some 0) false none).map Prod.snd =
      some [⟨0, 8⟩, ⟨0, 8⟩, ⟨0, 8⟩, ⟨8, 8⟩, ⟨8, 8⟩, ⟨8, 8⟩, ⟨16, 16⟩, ⟨16, 16⟩, ⟨8, 4⟩] := rfl
  have all := touched enough
  rw [(ends (enough + 5) (by omega)).1, Option.map_some, Option.some_inj] at all
  dsimp only at all
  have member : ⟨16, 16⟩ ∈ accesses := by
    rw [all]
    decide
  exact absurd (inBounds _ member).2 (by decide)

end Dift.Evio
