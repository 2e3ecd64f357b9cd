import Dift.Foundation.Elements
import Dift.Wire.HostOrder

/-!
Owns the recursive swapping of evio structures: `swapBank`, `swapSegment` and
`swapTagsegment`, which differ only in the layout of their header, and
`swapData`. Buffers are byte-addressed memory, a null pointer is `none`, and
words have the widths of the source, so that lengths are computed modulo 2^32.
The element swaps of `ByteOrder` are given by what they are documented to do;
`CompositeData::swapAll` is a parameter. Recursion is bounded by fuel, and
`none` means that there was not enough of it.
-/

namespace Dift.Evio

open Dift.Foundation
open Dift.Wire

/-! ### `ByteOrder` -/

/-- Reverse `elements` elements of `width` bytes, in place without a
destination. -/
def byteSwap (width : Nat) (memory : Mem) (src elements : Nat) (dst : Option Nat) : Mem :=
  memory.write (dst.getD src)
    (Radix.reverseEach width elements (memory.read src (width * elements)))

def byteSwap16 (memory : Mem) (src elements : Nat) (dst : Option Nat) : Mem :=
  byteSwap 2 memory src elements dst

def byteSwap32 (memory : Mem) (src elements : Nat) (dst : Option Nat) : Mem :=
  byteSwap 4 memory src elements dst

def byteSwap64 (memory : Mem) (src elements : Nat) (dst : Option Nat) : Mem :=
  byteSwap 8 memory src elements dst

/-- Copy words. -/
def byteNoSwap32 (memory : Mem) (src elements : Nat) (dst : Option Nat) : Mem :=
  memory.write (dst.getD src) (memory.read src (4 * elements))

/-! ### Headers -/

/-- What distinguishes the three structures: the words of the header, what the
header says of the data, and how long a structure with this first word is. -/
structure Layout where
  headerWords : Nat
  dataLength : (Nat → UInt32) → UInt32
  dataType : (Nat → UInt32) → UInt32
  fragmentLength : UInt32 → UInt32

/-- The padding information in the top 2 bits of the type byte is no part of
the type. -/
def bankLayout : Layout where
  headerWords := 2
  dataLength := fun p => p 0 - 1
  dataType := fun p => (p 1 >>> 8) &&& 0x3f
  fragmentLength := fun word => word + 1

def segmentLayout : Layout where
  headerWords := 1
  dataLength := fun p => p 0 &&& 0xffff
  dataType := fun p => (p 0 >>> 16) &&& 0x3f
  fragmentLength := fun word => (word &&& 0xffff) + 1

/-- No padding information in tagsegments. -/
def tagsegmentLayout : Layout where
  headerWords := 1
  dataLength := fun p => p 0 &&& 0xffff
  dataType := fun p => (p 0 >>> 16) &&& 0xf
  fragmentLength := fun word => (word &&& 0xffff) + 1

/-! ### Structures and data -/

/-- `CompositeData::swapAll`: memory, source, destination, length and whether
the source is local. -/
abbrev SwapAll := Mem → Nat → Option Nat → UInt32 → Bool → Mem

/-- The words at a pointer, as the host reads them. -/
def words (host : ByteOrder) (memory : Mem) (p : Nat) (index : Nat) : UInt32 :=
  load32 host memory (p + 4 * index)

section

variable (host : ByteOrder) (swapAll : SwapAll)

mutual

/-- The common body of `swapBank`, `swapSegment` and `swapTagsegment`. -/
def swapStructure (layout : Layout) :
    Nat → Mem → Option Nat → Bool → Option Nat → Option Mem
  | 0, _, _, _, _ => none
  | _ + 1, memory, none, _, _ => some memory
  | fuel + 1, memory, some buf, toLocal, dest =>
      let swapped := byteSwap32 memory buf layout.headerWords dest
      -- the header is read on the local side of its swap
      let p := if toLocal then words host swapped (dest.getD buf) else words host memory buf
      swapData fuel swapped (some (buf + 4 * layout.headerWords)) (layout.dataType p)
        (layout.dataLength p) toLocal (dest.map (· + 4 * layout.headerWords))

def swapData :
    Nat → Mem → Option Nat → UInt32 → UInt32 → Bool → Option Nat → Option Mem
  | 0, _, _, _, _, _, _ => none
  | _ + 1, memory, none, _, _, _, _ => some memory
  | fuel + 1, memory, some src, type, length, toLocal, dst =>
      if type = 0x1 ∨ type = 0x2 ∨ type = 0xb then
        some (byteSwap32 memory src length.toNat dst)
      else if type = 0x0 ∨ type = 0x3 ∨ type = 0x6 ∨ type = 0x7 then
        some (byteNoSwap32 memory src length.toNat dst)
      else if type = 0x4 ∨ type = 0x5 then
        some (byteSwap16 memory src (2 * length).toNat dst)
      else if type = 0x8 ∨ type = 0x9 ∨ type = 0xa then
        some (byteSwap64 memory src (length / 2).toNat dst)
      else if type = 0xf then
        some (swapAll memory src dst length (!toLocal))
      else if type = 0xe ∨ type = 0x10 then
        swapFragments bankLayout fuel memory src length toLocal dst 0
      else if type = 0xd ∨ type = 0x20 then
        swapFragments segmentLayout fuel memory src length toLocal dst 0
      else if type = 0xc then
        swapFragments tagsegmentLayout fuel memory src length toLocal dst 0
      else some (byteNoSwap32 memory src length.toNat dst)

/-- The loops over the structures in a container. -/
def swapFragments (layout : Layout) :
    Nat → Mem → Nat → UInt32 → Bool → Option Nat → UInt32 → Option Mem
  | 0, _, _, _, _, _, _ => none
  | fuel + 1, memory, src, length, toLocal, dst, l =>
      if l < length then
        match swapStructure layout fuel memory (some (src + 4 * l.toNat)) toLocal
            (dst.map (· + 4 * l.toNat)) with
        | none => none
        | some swapped =>
            let word :=
              if toLocal then words host swapped (dst.getD src) l.toNat
              else words host memory src l.toNat
            swapFragments layout fuel swapped src length toLocal dst
              (l + layout.fragmentLength word)
      else some memory

end

def swapBank : Nat → Mem → Option Nat → Bool → Option Nat → Option Mem :=
  swapStructure host swapAll bankLayout

def swapSegment : Nat → Mem → Option Nat → Bool → Option Nat → Option Mem :=
  swapStructure host swapAll segmentLayout

def swapTagsegment : Nat → Mem → Option Nat → Bool → Option Nat → Option Mem :=
  swapStructure host swapAll tagsegmentLayout

/-- `swapEvent` takes an `int`. -/
def swapEvent (fuel : Nat) (memory : Mem) (buf : Option Nat) (tolocal : Int)
    (dest : Option Nat) : Option Mem :=
  swapBank host swapAll fuel memory buf (tolocal ≠ 0) dest

end

end Dift.Evio
