import Dift.Evio.Preserve

/-!
Owns the comparison of the two ways to swap a bank: in place, and into a
separate destination. Both lay the same cells, so they agree exactly when no
cell is missing, since a missing cell keeps the old byte of the buffer in one
case and the old byte of the destination in the other. Cells are missing only
in leaves of shorts whose number is not counted in 32 bits.
-/

namespace Dift.Evio

open Dift.Foundation
open Dift.Wire

/-! ### Which data is written whole -/

mutual

/-- The shorts of every leaf are counted in 32 bits. -/
def RawContent.Counted : RawContent → Prop
  | .leaf code stored => code = 0x4 ∨ code = 0x5 → stored.length / 4 < 2 ^ 31
  | .container _ children => children.Counted

def RawForest.Counted : RawForest → Prop
  | .nil => True
  | .cons _ content rest => content.Counted ∧ rest.Counted

end

/-- A leaf is written whole exactly when its shorts are counted. -/
theorem leaf_written_full_iff (order : ByteOrder) {code : Nat} {stored : List UInt8}
    (fits : (RawContent.leaf code stored).Fits) :
    none ∉ (RawContent.leaf code stored).written order ↔
      (RawContent.leaf code stored).Counted := by
  have none_notMem (block : List UInt8) : none ∉ block.map some := by
    simp
  have handled : none ∉ (RawContent.leaf code stored).written order ↔
      stored.length ≤ leafWidth code * leafCount code (stored.length / 4) := by
    rw [RawContent.written, List.mem_append, not_or, List.mem_replicate]
    simp only [none_notMem, not_false_eq_true, true_and, and_true, ne_eq, Decidable.not_not]
    exact Nat.sub_eq_zero_iff_le
  rw [handled, RawContent.Counted]
  rcases fits with ⟨-, wholeWords, wholeWide⟩
  unfold leafWidth at *
  unfold leafCount
  split_ifs at * <;> omega

mutual

theorem RawContent.written_full_iff (order : ByteOrder) : ∀ {content : RawContent}, content.Fits →
    (none ∉ content.written order ↔ content.Counted)
  | .leaf _ _, fits => leaf_written_full_iff order fits
  | .container _ _, fits => RawForest.written_full_iff order fits

theorem RawForest.written_full_iff (order : ByteOrder) {kind : Kind} : ∀ {forest : RawForest},
    forest.Fits kind → (none ∉ forest.written order kind ↔ forest.Counted)
  | .nil, _ => iff_of_true List.not_mem_nil trivial
  | .cons label content rest, ⟨_, contentFits, restFits⟩ => by
      rw [RawForest.written, List.mem_append, List.mem_append, not_or, not_or,
        RawContent.written_full_iff order contentFits, RawForest.written_full_iff order restFits,
        RawForest.Counted]
      simp

end

theorem RawBank.written_full_iff (bank : RawBank) (order : ByteOrder) :
    none ∉ bank.written order ↔ bank.content.Counted := by
  rw [RawBank.written, structureWritten, List.mem_append, not_or,
    RawContent.written_full_iff order bank.fits]
  simp

/-! ### The two ways to swap -/

section

variable (host : ByteOrder) (swapAll : SwapAll)

/-- `swapBank` with a destination returns with this memory. -/
def SwapsInto (memory : Mem) (buf : Nat) (toLocal : Bool) (dest : Nat) (result : Mem) : Prop :=
  ∃ fuel, ∀ more, fuel ≤ more →
    swapBank host swapAll more memory (some buf) toLocal (some dest) = some result

/-- In either direction and wherever the bank and a destination lie apart, both
calls return, the one with the destination writes there, and nowhere else, every
word that the other leaves in the buffer, and the buffer stays as it was. -/
def ModesAgree (bank : RawBank) : Prop :=
  ∀ (toLocal : Bool) (memory : Mem) (buf dest : Nat),
    dest + 4 * bank.words ≤ buf ∨ buf + 4 * bank.words ≤ dest →
    memory.read buf (4 * bank.words) = bank.bytes (source host toLocal) →
    ∃ inPlace outOfPlace : Mem,
      SwapsTo host swapAll memory buf toLocal inPlace ∧
      SwapsInto host swapAll memory buf toLocal dest outOfPlace ∧
      outOfPlace = memory.write dest (inPlace.read buf (4 * bank.words)) ∧
      outOfPlace.read buf (4 * bank.words) = memory.read buf (4 * bank.words)

variable {host swapAll}

theorem SwapsInto.unique {memory : Mem} {buf dest : Nat} {toLocal : Bool} {first second : Mem}
    (one : SwapsInto host swapAll memory buf toLocal dest first)
    (other : SwapsInto host swapAll memory buf toLocal dest second) : first = second :=
  result_unique one other

theorem swapsTo_overlay (bank : RawBank) {toLocal : Bool} {memory : Mem} {buf : Nat}
    (held : memory.read buf (4 * bank.words) = bank.bytes (source host toLocal)) :
    SwapsTo host swapAll memory buf toLocal
      (memory.overlay buf (bank.written (source host toLocal))) :=
  ⟨bank.content.cost + 1, fun _ enough =>
    swapBank_written host swapAll bank (apart_none _ _) held enough⟩

theorem swapsInto_overlay (bank : RawBank) {toLocal : Bool} {memory : Mem} {buf dest : Nat}
    (disjoint : dest + 4 * bank.words ≤ buf ∨ buf + 4 * bank.words ≤ dest)
    (held : memory.read buf (4 * bank.words) = bank.bytes (source host toLocal)) :
    SwapsInto host swapAll memory buf toLocal dest
      (memory.overlay dest (bank.written (source host toLocal))) := by
  have apart : Apart buf (some dest) (4 * bank.words) := by
    intro start isStart
    cases isStart
    exact disjoint
  exact ⟨bank.content.cost + 1, fun _ enough =>
    swapBank_written host swapAll bank apart held enough⟩

/-- Where the modes agree, an overlay is a write. -/
theorem overlay_eq_write_of_modesAgree {bank : RawBank} (agree : ModesAgree host swapAll bank)
    {memory : Mem} {buf dest : Nat}
    (disjoint : dest + 4 * bank.words ≤ buf ∨ buf + 4 * bank.words ≤ dest)
    (held : memory.read buf (4 * bank.words) = bank.bytes host) :
    memory.overlay dest (bank.written host) = memory.write dest
      ((memory.overlay buf (bank.written host)).read buf (bank.written host).length) := by
  rcases agree false memory buf dest
    disjoint held with ⟨inPlace, outOfPlace, swapsTo, swapsInto, same, -⟩
  have isInPlace := swapsTo.unique (swapsTo_overlay bank held)
  have isOutOfPlace := swapsInto.unique (swapsInto_overlay bank disjoint held)
  rw [isInPlace, isOutOfPlace] at same
  rw [bank.written_length]
  exact same

/-- A memory that holds a bank, and behind it any byte at any place. -/
theorem exists_held_behind (bank : RawBank) (order : ByteOrder) (index : Nat) (byte : UInt8) :
    ∃ memory : Mem, memory.read 0 (4 * bank.words) = bank.bytes order ∧
      memory (4 * bank.words + index) = byte := by
  refine ⟨Memory.write (Memory.write (fun _ => 0) 0 (bank.bytes order)) (4 * bank.words + index)
    [byte], ?_, ?_⟩
  · rw [Memory.read_write_disjoint _ _ _ (.inl (by omega)), ← bank.bytes_length order,
      Memory.read_write_self]
  · exact Memory.write_inside _ _ [byte] Nat.zero_lt_one

/-- Where a cell is missing, the destination can show it. -/
theorem counted_of_modesAgree {bank : RawBank} (agree : ModesAgree host swapAll bank) :
    bank.content.Counted := by
  apply (bank.written_full_iff host).mp
  intro isMissing
  rcases List.getElem_of_mem isMissing with ⟨index, below, atIndex⟩
  have inBank : index < (bank.bytes host).length := by
    rwa [bank.bytes_length, ← bank.written_length host]
  rcases exists_held_behind bank host index ((bank.bytes host)[index] + 1) with
    ⟨memory, held, behind⟩
  have same := Memory.eq_of_overlay_eq_write (List.getElem?_eq_some_iff.mpr ⟨below, atIndex⟩)
    (overlay_eq_write_of_modesAgree agree (.inr (Nat.zero_add _).le) held)
  have here : memory (0 + index) = (bank.bytes host)[index] := by
    rw [← Memory.read_getElem memory 0 (4 * bank.words) (by
      rwa [Memory.read_length, ← bank.bytes_length host])]
    exact List.getElem_of_eq held _
  rw [behind, here] at same
  simp at same

theorem modesAgree_of_counted {bank : RawBank} (counted : bank.content.Counted) :
    ModesAgree host swapAll bank := by
  intro toLocal memory buf dest disjoint held
  have full := (bank.written_full_iff (source host toLocal)).mpr counted
  have size := bank.written_length (source host toLocal)
  have write := Memory.overlay_eq_write_of_full full memory buf dest
  rw [size] at write
  have stays := Memory.read_overlay_disjoint memory dest (bank.written (source host toLocal))
    (by rw [size]; exact disjoint.symm)
  exact ⟨_, _, swapsTo_overlay bank held, swapsInto_overlay bank disjoint held, write, stays⟩

variable (host swapAll)

/-- In-place and out-of-place swapping agree exactly on the banks whose shorts
are counted. -/
theorem modesAgree_iff_counted (bank : RawBank) :
    ModesAgree host swapAll bank ↔ bank.content.Counted :=
  ⟨counted_of_modesAgree, modesAgree_of_counted⟩

end

/-- A bank of so many words of shorts. -/
def shortsBank (words : Nat) (small : words + 1 < 2 ^ 32) : RawBank where
  label := ⟨1, 0, 1⟩
  content := .leaf 0x4 (List.replicate (4 * words) 0)
  holds := by
    simp only [Kind.Holds, RawContent.typeCode, RawContent.words, List.length_replicate]
    omega
  fits := by
    rw [RawContent.Fits, List.length_replicate]
    exact ⟨by decide, Nat.dvd_mul_right _ _, fun wide => absurd wide (by decide)⟩

/-- With 2^31 words of shorts nothing but the header is written. -/
theorem not_modesAgree_shortsBank :
    ¬ ModesAgree .little (fun memory _ _ _ _ => memory) (shortsBank (2 ^ 31) (by decide)) := by
  intro agree
  have counted := counted_of_modesAgree agree (.inl rfl)
  rw [List.length_replicate] at counted
  exact absurd counted (by decide)

end Dift.Evio
