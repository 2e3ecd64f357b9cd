import Dift.Evio.Swap

/-!
Owns the swapping of an evio event that is held as a tree of structures: every
leaf keeps its elements in a vector of its own, and `swapData` swaps them there,
as many of them as the header counts 32-bit words of data. That is the number of
elements when they have 32 bits. Of 16-bit elements it is too few and of 64-bit
elements too many, so the tree is swapped as it should be exactly when it has at
most one element in every leaf of the first kind and none in those of the second.
-/

namespace Dift.Evio

open Dift.Foundation
open Dift.Wire

/-! ### Trees of structures -/

/-- The types that data can have. -/
inductive DataType where
  | unknown32
  | uint32
  | float32
  | charstar8
  | short16
  | ushort16
  | char8
  | uchar8
  | double64
  | long64
  | ulong64
  | int32
  | tagsegment
  | alsosegment
  | alsobank
  | composite
  | bank
  | segment
  | hollerit
  | upperNvalue
  | nvalue
  | mvalue
  | notAValidType
deriving DecidableEq, Repr

namespace DataType

def isBank (type : DataType) : Bool := type == bank || type == alsobank

def isSegment (type : DataType) : Bool := type == segment || type == alsosegment

def isTagSegment (type : DataType) : Bool := type == tagsegment

end DataType

/-- A vector: where `data()` points and how many elements there are. -/
structure TypedVector where
  data : Nat
  size : Nat
deriving DecidableEq, Repr

mutual

/-- What swapping reads of a structure: the type and the data length in its
header, the vector that `getIntData()` and its siblings give for the type, and
the children. -/
inductive BaseStructure where
  | mk (dataType : DataType) (dataLength : UInt32) (vector : TypedVector) (children : Children)

inductive Children where
  | nil
  | cons (kid : BaseStructure) (rest : Children)

end

/-- A call of `byteSwap16`, `byteSwap32` or `byteSwap64` without a destination. -/
structure SwapCall where
  width : Nat
  src : Nat
  elements : Nat
deriving DecidableEq, Repr

/-- The bytes that a call reads and writes: where they start and how many there
are. -/
def SwapCall.range (call : SwapCall) : Nat × Nat :=
  (call.src, call.width * call.elements)

/-- The memory, and the bytes touched so far. -/
structure Swapping where
  memory : Mem
  touched : List (Nat × Nat)

def Swapping.call (swapping : Swapping) (call : SwapCall) : Swapping where
  memory := byteSwap call.width swapping.memory call.src call.elements none
  touched := swapping.touched ++ [call.range]

mutual

/-- `swapData` of a structure. -/
def BaseStructure.swapData : BaseStructure → Swapping → Swapping
  | .mk dataType dataLength vector children, swapping =>
      let length := dataLength.toNat
      if dataType = .uint32 then swapping.call ⟨4, vector.data, length⟩
      else if dataType = .int32 then swapping.call ⟨4, vector.data, length⟩
      else if dataType = .float32 then swapping.call ⟨4, vector.data, length⟩
      else if dataType = .short16 then swapping.call ⟨2, vector.data, length⟩
      else if dataType = .ushort16 then swapping.call ⟨2, vector.data, length⟩
      else if dataType = .long64 then swapping.call ⟨8, vector.data, length⟩
      else if dataType = .ulong64 then swapping.call ⟨8, vector.data, length⟩
      else if dataType = .double64 then swapping.call ⟨8, vector.data, length⟩
      else if dataType.isBank || dataType.isSegment || dataType.isTagSegment then
        children.swapData swapping
      else swapping

/-- The loop over the children. -/
def Children.swapData : Children → Swapping → Swapping
  | .nil, swapping => swapping
  | .cons kid rest, swapping => rest.swapData (kid.swapData swapping)

end

/-! ### What is to be swapped -/

/-- The bytes of an element of a type whose elements are swapped. -/
def DataType.swapWidth : DataType → Option Nat
  | .short16 | .ushort16 => some 2
  | .uint32 | .int32 | .float32 => some 4
  | .long64 | .ulong64 | .double64 => some 8
  | _ => none

/-- The type of a container. -/
def DataType.isContainer (type : DataType) : Bool :=
  type.isBank || type.isSegment || type.isTagSegment

mutual

/-- The leaf vectors with 16-, 32- and 64-bit elements, each as the call that
swaps it: all of its elements, once. -/
def BaseStructure.vectors : BaseStructure → List SwapCall
  | .mk dataType _ vector children =>
      match dataType.swapWidth with
      | some width => [⟨width, vector.data, vector.size⟩]
      | none => if dataType.isContainer then children.vectors else []

def Children.vectors : Children → List SwapCall
  | .nil => []
  | .cons kid rest => kid.vectors ++ rest.vectors

end

mutual

/-- The header of every leaf counts the data of its vector in 32-bit words. -/
def BaseStructure.Agrees : BaseStructure → Prop
  | .mk dataType dataLength vector children =>
      match dataType.swapWidth with
      | some width => dataLength.toNat = (width * vector.size + 3) / 4
      | none => dataType.isContainer = true → children.Agrees

def Children.Agrees : Children → Prop
  | .nil => True
  | .cons kid rest => kid.Agrees ∧ rest.Agrees

end

/-- The bytes that two calls touch do not overlap. -/
def SwapCall.Disjoint (first second : SwapCall) : Prop :=
  first.range.1 + first.range.2 ≤ second.range.1 ∨
    second.range.1 + second.range.2 ≤ first.range.1

instance (first second : SwapCall) : Decidable (first.Disjoint second) := by
  unfold SwapCall.Disjoint
  infer_instance

/-- The vectors have memory of their own. -/
def BaseStructure.Placed (root : BaseStructure) : Prop :=
  root.vectors.Pairwise SwapCall.Disjoint

instance (root : BaseStructure) : Decidable root.Placed := by
  unfold BaseStructure.Placed
  infer_instance

/-- An address belongs to the elements of a vector. -/
def SwapCall.Covers (vector : SwapCall) (address : Nat) : Prop :=
  vector.range.1 ≤ address ∧ address < vector.range.1 + vector.range.2

/-- Every element of every vector is swapped once, nothing outside of the vectors
is touched or changed, and a second swap restores everything. -/
structure BaseStructure.SwapsEachOnce (root : BaseStructure) (memory : Mem) : Prop where
  touched : (root.swapData ⟨memory, []⟩).touched = root.vectors.map SwapCall.range
  swapped : ∀ vector ∈ root.vectors,
    (root.swapData ⟨memory, []⟩).memory.read vector.src (vector.width * vector.elements) =
      Radix.reverseEach vector.width vector.elements
        (memory.read vector.src (vector.width * vector.elements))
  outside : ∀ address, (∀ vector ∈ root.vectors, ¬ vector.Covers address) →
    (root.swapData ⟨memory, []⟩).memory address = memory address
  twice : (root.swapData ⟨(root.swapData ⟨memory, []⟩).memory, []⟩).memory = memory

mutual

/-- Leaves of 16-bit elements hold at most one of them, and leaves of 64-bit
elements hold none. -/
def BaseStructure.Short : BaseStructure → Prop
  | .mk dataType _ vector children =>
      match dataType.swapWidth with
      | some width => (width = 2 → vector.size ≤ 1) ∧ (width = 8 → vector.size = 0)
      | none => dataType.isContainer = true → children.Short

def Children.Short : Children → Prop
  | .nil => True
  | .cons kid rest => kid.Short ∧ rest.Short

end

/-! ### The calls -/

mutual

/-- The calls that swapping makes: as many elements as there are words. -/
def BaseStructure.calls : BaseStructure → List SwapCall
  | .mk dataType dataLength vector children =>
      match dataType.swapWidth with
      | some width => [⟨width, vector.data, dataLength.toNat⟩]
      | none => if dataType.isContainer then children.calls else []

def Children.calls : Children → List SwapCall
  | .nil => []
  | .cons kid rest => kid.calls ++ rest.calls

end

mutual

theorem BaseStructure.swapData_eq : ∀ (root : BaseStructure) (swapping : Swapping),
    root.swapData swapping = root.calls.foldl Swapping.call swapping
  | .mk dataType dataLength vector children, swapping => by
      have inChildren := Children.swapData_eq children swapping
      cases dataType <;>
        simp [BaseStructure.swapData, BaseStructure.calls, DataType.swapWidth,
          DataType.isContainer, DataType.isBank, DataType.isSegment, DataType.isTagSegment,
          inChildren]

theorem Children.swapData_eq : ∀ (children : Children) (swapping : Swapping),
    children.swapData swapping = children.calls.foldl Swapping.call swapping
  | .nil, _ => rfl
  | .cons kid rest, swapping => by
      rw [Children.swapData, Children.calls, List.foldl_append, BaseStructure.swapData_eq kid,
        Children.swapData_eq rest]

end

theorem touched_foldl (calls : List SwapCall) (swapping : Swapping) :
    (calls.foldl Swapping.call swapping).touched =
      swapping.touched ++ calls.map SwapCall.range := by
  induction calls generalizing swapping with
  | nil => simp
  | cons first rest inductionHypothesis =>
      rw [List.foldl_cons, inductionHypothesis, List.map_cons, Swapping.call]
      simp

/-- The block that a call leaves. -/
def SwapCall.block (call : SwapCall) (memory : Mem) : List UInt8 :=
  Radix.reverseEach call.width call.elements (memory.read call.src (call.width * call.elements))

theorem SwapCall.block_length (call : SwapCall) (memory : Mem) :
    (call.block memory).length = call.width * call.elements :=
  Radix.reverseEach_length (by rw [Memory.read_length])

theorem call_memory (swapping : Swapping) (call : SwapCall) :
    (swapping.call call).memory = swapping.memory.write call.src (call.block swapping.memory) :=
  rfl

/-- Bytes that no call covers stay. -/
theorem outside_foldl (calls : List SwapCall) (swapping : Swapping) {address : Nat}
    (outside : ∀ call ∈ calls, ¬ call.Covers address) :
    (calls.foldl Swapping.call swapping).memory address = swapping.memory address := by
  induction calls generalizing swapping with
  | nil => rfl
  | cons first rest inductionHypothesis =>
      have apart := outside first List.mem_cons_self
      simp only [SwapCall.Covers, SwapCall.range, not_and_or, not_le, not_lt] at apart
      rw [List.foldl_cons,
        inductionHypothesis _ fun call member => outside call (List.mem_cons_of_mem _ member),
        call_memory, Memory.write_outside _ _ _ (by rwa [SwapCall.block_length])]

/-- Among calls that do not overlap each leaves its block. -/
theorem swapped_foldl {calls : List SwapCall} (apart : calls.Pairwise SwapCall.Disjoint)
    (swapping : Swapping) {call : SwapCall} (member : call ∈ calls) :
    (calls.foldl Swapping.call swapping).memory.read call.src (call.width * call.elements) =
      call.block swapping.memory := by
  induction calls generalizing swapping with
  | nil => cases member
  | cons first rest inductionHypothesis =>
      rw [List.pairwise_cons] at apart
      rw [List.foldl_cons]
      rcases List.mem_cons.mp member with rfl | later
      · have stays : (rest.foldl Swapping.call (swapping.call call)).memory.read call.src
            (call.width * call.elements) =
              (swapping.call call).memory.read call.src (call.width * call.elements) := by
          apply Memory.read_congr
          intro address atLeast below
          apply outside_foldl
          intro other among covers
          have disjoint := apart.1 other among
          simp only [SwapCall.Disjoint, SwapCall.Covers, SwapCall.range] at disjoint covers
          omega
        rw [stays, call_memory, ← SwapCall.block_length call swapping.memory,
          Memory.read_write_self]
      · have disjoint := apart.1 call later
        rw [inductionHypothesis apart.2 _ later, SwapCall.block, call_memory,
          Memory.read_write_disjoint _ _ _ (by
            rw [SwapCall.block_length]
            exact disjoint.symm)]
        rfl

/-- Calls that do not overlap, made twice, restore the memory. -/
theorem twice_foldl {calls : List SwapCall} (apart : calls.Pairwise SwapCall.Disjoint)
    (first : Swapping) {second : Swapping}
    (again : second.memory = (calls.foldl Swapping.call first).memory) :
    (calls.foldl Swapping.call second).memory = first.memory := by
  funext address
  by_cases covered : ∃ call ∈ calls, call.Covers address
  · rcases covered with ⟨call, member, atLeast, below⟩
    have once := swapped_foldl apart first member
    have back := swapped_foldl apart second member
    rw [SwapCall.block, again, once, SwapCall.block,
      Radix.reverseEach_reverseEach (Memory.read_length _ _ _), Memory.read_eq_iff] at back
    simp only [SwapCall.range] at atLeast below
    have same := back (address - call.src) (by omega)
    rwa [Nat.add_sub_cancel' atLeast] at same
  · simp only [not_exists, not_and] at covered
    rw [outside_foldl calls second covered, again, outside_foldl calls first covered]

/-! ### When the calls are the right ones -/

mutual

theorem BaseStructure.calls_length : ∀ root : BaseStructure,
    root.calls.length = root.vectors.length
  | .mk dataType _ _ children => by
      have inChildren := Children.calls_length children
      rw [BaseStructure.calls, BaseStructure.vectors]
      cases dataType.swapWidth with
      | none => split_ifs <;> simp [inChildren]
      | some width => rfl

theorem Children.calls_length : ∀ children : Children,
    children.calls.length = children.vectors.length
  | .nil => rfl
  | .cons kid rest => by
      rw [Children.calls, Children.vectors, List.length_append, List.length_append,
        BaseStructure.calls_length kid, Children.calls_length rest]

end

theorem DataType.swapWidth_cases {type : DataType} {width : Nat}
    (has : type.swapWidth = some width) : width = 2 ∨ width = 4 ∨ width = 8 := by
  cases type <;> simp_all [DataType.swapWidth]

/-- A word count is the element count for elements of a word, for a single short
and for nothing. -/
theorem elements_iff {width size words : Nat} (isWidth : width = 2 ∨ width = 4 ∨ width = 8)
    (agrees : words = (width * size + 3) / 4) :
    words = size ↔ (width = 2 → size ≤ 1) ∧ (width = 8 → size = 0) := by
  rcases isWidth with rfl | rfl | rfl <;> omega

mutual

/-- The right bytes are touched only in short trees. -/
theorem BaseStructure.short_of_ranges : ∀ {root : BaseStructure}, root.Agrees →
    root.calls.map SwapCall.range = root.vectors.map SwapCall.range → root.Short
  | .mk dataType dataLength vector children, agrees, same => by
      rw [BaseStructure.Agrees] at agrees
      rw [BaseStructure.calls, BaseStructure.vectors] at same
      rw [BaseStructure.Short]
      cases has : dataType.swapWidth with
      | none =>
          rw [has] at agrees same
          intro contains
          simp only [contains, if_true] at same
          exact Children.short_of_ranges (agrees contains) same
      | some width =>
          rw [has] at agrees same
          have isWidth := DataType.swapWidth_cases has
          simp only [List.map_cons, List.map_nil, SwapCall.range, List.cons.injEq, Prod.mk.injEq,
            true_and, and_true] at same
          exact (elements_iff isWidth agrees).mp (Nat.eq_of_mul_eq_mul_left (by omega) same)

theorem Children.short_of_ranges : ∀ {children : Children}, children.Agrees →
    children.calls.map SwapCall.range = children.vectors.map SwapCall.range → children.Short
  | .nil, _, _ => trivial
  | .cons kid rest, agrees, same => by
      rw [Children.calls, Children.vectors, List.map_append, List.map_append] at same
      rcases List.append_inj same (by simp [BaseStructure.calls_length kid]) with
        ⟨sameKid, sameRest⟩
      exact ⟨BaseStructure.short_of_ranges agrees.1 sameKid,
        Children.short_of_ranges agrees.2 sameRest⟩

end

mutual

theorem BaseStructure.calls_of_short : ∀ {root : BaseStructure}, root.Agrees → root.Short →
    root.calls = root.vectors
  | .mk dataType dataLength vector children, agrees, short => by
      rw [BaseStructure.Agrees] at agrees
      rw [BaseStructure.Short] at short
      rw [BaseStructure.calls, BaseStructure.vectors]
      cases has : dataType.swapWidth with
      | none =>
          rw [has] at agrees short
          by_cases contains : dataType.isContainer = true
          · simp only [contains, if_true]
            exact Children.calls_of_short (agrees contains) (short contains)
          · rw [if_neg contains, if_neg contains]
      | some width =>
          rw [has] at agrees short
          have elements := (elements_iff (DataType.swapWidth_cases has) agrees).mpr short
          simp only [elements]

theorem Children.calls_of_short : ∀ {children : Children}, children.Agrees → children.Short →
    children.calls = children.vectors
  | .nil, _, _ => rfl
  | .cons kid rest, agrees, short => by
      rw [Children.calls, Children.vectors, BaseStructure.calls_of_short agrees.1 short.1,
        Children.calls_of_short agrees.2 short.2]

end

/-- A tree is swapped as it should be, wherever its vectors are, exactly when it
is short. -/
theorem swapData_swapsEachOnce_iff (root : BaseStructure) (agrees : root.Agrees)
    (placed : root.Placed) :
    (∀ memory, root.SwapsEachOnce memory) ↔ root.Short := by
  constructor
  · intro swaps
    have touched := (swaps fun _ => 0).touched
    rw [BaseStructure.swapData_eq, touched_foldl, List.nil_append] at touched
    exact BaseStructure.short_of_ranges agrees touched
  · intro short memory
    have calls := BaseStructure.calls_of_short agrees short
    refine ⟨?_, ?_, ?_, ?_⟩
    · rw [BaseStructure.swapData_eq, touched_foldl, List.nil_append, calls]
    · intro vector member
      rw [BaseStructure.swapData_eq, calls]
      exact swapped_foldl placed _ member
    · intro address outside
      rw [BaseStructure.swapData_eq, calls]
      exact outside_foldl _ _ outside
    · rw [BaseStructure.swapData_eq, BaseStructure.swapData_eq, calls]
      exact twice_foldl placed ⟨memory, []⟩ rfl

/-- A bank of banks with a leaf of two ints, one of a single short and one of
bytes. -/
def sampleTree : BaseStructure :=
  .mk .bank 6 ⟨0, 0⟩ (.cons (.mk .uint32 2 ⟨100, 2⟩ .nil)
    (.cons (.mk .short16 1 ⟨200, 1⟩ .nil) (.cons (.mk .char8 1 ⟨300, 3⟩ .nil) .nil)))

theorem swapData_swapsEachOnce_iff_sample :
    (∀ memory, sampleTree.SwapsEachOnce memory) ↔ sampleTree.Short :=
  swapData_swapsEachOnce_iff sampleTree
    (by simp [sampleTree, BaseStructure.Agrees, Children.Agrees, DataType.swapWidth])
    (by decide)

/-- A leaf of two shorts, four bytes of data in one word. -/
def twoShorts : BaseStructure := .mk .ushort16 1 ⟨100, 2⟩ .nil

/-- Only the first of two shorts is swapped. -/
theorem not_swapsEachOnce_twoShorts :
    twoShorts.Agrees ∧ twoShorts.Placed ∧ ¬ ∀ memory, twoShorts.SwapsEachOnce memory := by
  refine ⟨rfl, by decide, fun swaps => ?_⟩
  exact absurd (swaps fun _ => 0).touched (by decide)

end Dift.Evio
