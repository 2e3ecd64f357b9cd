import Dift.Foundation.Memory

/-!
Owns partial block writes: a list of optional cells laid over a memory, where a
missing cell leaves what was there. Overlays compose like block writes, and an
overlay puts down the same block wherever it is laid exactly when no cell is
missing.
-/

namespace Dift.Foundation.Memory

variable {α : Type*}

/-- Lay some cells over a memory from `start` on; a missing cell is left as it
was. -/
def overlay (memory : Memory α) (start : Nat) (cells : List (Option α)) : Memory α := fun address =>
  if start ≤ address then ((cells[address - start]?).join).getD (memory address)
  else memory address

theorem overlay_inside (memory : Memory α) (start : Nat) (cells : List (Option α)) {index : Nat}
    (below : index < cells.length) :
    memory.overlay start cells (start + index) = cells[index].getD (memory (start + index)) := by
  simp [overlay, below]

theorem overlay_outside (memory : Memory α) (start : Nat) (cells : List (Option α)) {address : Nat}
    (outside : address < start ∨ start + cells.length ≤ address) :
    memory.overlay start cells address = memory address := by
  unfold overlay
  split_ifs with atLeast
  · have past : cells.length ≤ address - start := by omega
    simp [List.getElem?_eq_none past]
  · rfl

@[simp] theorem overlay_nil (memory : Memory α) (start : Nat) :
    memory.overlay start [] = memory := by
  funext address
  simp [overlay]

/-- An overlay does not show in a disjoint block. -/
theorem read_overlay_disjoint (memory : Memory α) (start : Nat) (cells : List (Option α))
    {other count : Nat} (disjoint : other + count ≤ start ∨ start + cells.length ≤ other) :
    (memory.overlay start cells).read other count = memory.read other count := by
  apply read_congr
  intro address atLeast below
  exact overlay_outside memory start cells (by omega)

/-- Two adjacent overlays are one overlay. -/
theorem overlay_append (memory : Memory α) (start : Nat) (first second : List (Option α)) :
    (memory.overlay start first).overlay (start + first.length) second =
      memory.overlay start (first ++ second) := by
  funext address
  by_cases below : address < start
  · rw [overlay_outside _ _ _ (by omega), overlay_outside _ _ _ (by omega),
      overlay_outside _ _ _ (by omega)]
  · obtain ⟨index, rfl⟩ : ∃ index, address = start + index := ⟨address - start, by omega⟩
    by_cases inFirst : index < first.length
    · rw [overlay_outside _ _ _ (by omega), overlay_inside _ _ _ inFirst,
        overlay_inside _ _ _ (by simp; omega), List.getElem_append_left inFirst]
    · obtain ⟨offset, rfl⟩ : ∃ offset, index = first.length + offset :=
        ⟨index - first.length, by omega⟩
      by_cases inSecond : offset < second.length
      · rw [← Nat.add_assoc, overlay_inside _ _ _ inSecond, overlay_outside _ start _ (by omega),
          Nat.add_assoc, overlay_inside _ _ _ (by simp; omega),
          List.getElem_append_right (by omega)]
        simp
      · rw [overlay_outside _ _ _ (by omega), overlay_outside _ _ _ (by omega),
          overlay_outside _ _ _ (by simp; omega)]

/-- Without missing cells an overlay is a write. -/
theorem overlay_map_some (memory : Memory α) (start : Nat) (block : List α) :
    memory.overlay start (block.map some) = memory.write start block := by
  funext address
  by_cases inside : start ≤ address ∧ address < start + block.length
  · obtain ⟨index, rfl⟩ : ∃ index, address = start + index := ⟨address - start, by omega⟩
    rw [overlay_inside _ _ _ (by simp; omega), write_inside _ _ _ (by omega)]
    simp
  · rw [overlay_outside _ _ _ (by simp; omega), write_outside _ _ _ (by omega)]

/-- Only missing cells change nothing. -/
theorem overlay_replicate_none (memory : Memory α) (start count : Nat) :
    memory.overlay start (List.replicate count none) = memory := by
  funext address
  by_cases inside : start ≤ address ∧ address < start + count
  · obtain ⟨index, rfl⟩ : ∃ index, address = start + index := ⟨address - start, by omega⟩
    rw [overlay_inside _ _ _ (by simp; omega)]
    simp
  · rw [overlay_outside _ _ _ (by simp; omega)]

/-- Missing cells can be filled with what stands in their place. -/
theorem overlay_eq_write_filled {memory : Memory α} {start : Nat} {cells : List (Option α)}
    {block : List α} (sameLength : cells.length = block.length)
    (held : memory.read start block.length = block) :
    memory.overlay start cells = memory.write start (List.zipWith Option.getD cells block) := by
  funext address
  by_cases inside : start ≤ address ∧ address < start + block.length
  · obtain ⟨index, rfl⟩ : ∃ index, address = start + index := ⟨address - start, by omega⟩
    have below : index < block.length := by omega
    have here : memory (start + index) = block[index] := by
      rw [← read_getElem memory start block.length (by simpa using below)]
      exact List.getElem_of_eq held _
    rw [overlay_inside _ _ _ (by omega), write_inside _ _ _ (by simp; omega),
      List.getElem_zipWith, here]
  · rw [overlay_outside _ _ _ (by omega), write_outside _ _ _ (by simp; omega)]

theorem filled_map_some {block other : List α} (sameLength : block.length = other.length) :
    List.zipWith Option.getD (block.map some) other = block := by
  rw [List.zipWith_map_left]
  apply List.ext_getElem
  · simp [sameLength]
  · intro index _ _
    simp

theorem filled_replicate_none (block : List α) :
    List.zipWith Option.getD (List.replicate block.length none) block = block := by
  apply List.ext_getElem
  · simp
  · intro index _ _
    simp

/-- Cells without a missing one are a block. -/
theorem exists_block_of_none_notMem {cells : List (Option α)} (full : none ∉ cells) :
    ∃ block : List α, block.map some = cells := by
  induction cells with
  | nil => exact ⟨[], rfl⟩
  | cons cell rest inductionHypothesis =>
      rw [List.mem_cons, not_or] at full
      rcases Option.ne_none_iff_exists'.mp (Ne.symm full.1) with ⟨value, isValue⟩
      rcases inductionHypothesis full.2 with ⟨block, isRest⟩
      exact ⟨value :: block, by rw [List.map_cons, isValue, isRest]⟩

/-- Without missing cells, what stands at one place after an overlay there is
what an overlay at another place writes. -/
theorem overlay_eq_write_of_full {cells : List (Option α)} (full : none ∉ cells)
    (memory : Memory α) (start other : Nat) :
    memory.overlay other cells =
      memory.write other ((memory.overlay start cells).read start cells.length) := by
  rcases exists_block_of_none_notMem full with ⟨block, rfl⟩
  rw [overlay_map_some, overlay_map_some, List.length_map, read_write_self]

/-- At a missing cell an overlay that is a write shows that both places held
the same value before. -/
theorem eq_of_overlay_eq_write {cells : List (Option α)} {index : Nat}
    (missing : cells[index]? = some none) {memory : Memory α} {start other : Nat}
    (same : memory.overlay other cells =
      memory.write other ((memory.overlay start cells).read start cells.length)) :
    memory (other + index) = memory (start + index) := by
  rcases List.getElem?_eq_some_iff.mp missing with ⟨below, isMissing⟩
  have here := congrFun same (other + index)
  rwa [overlay_inside _ _ _ below, write_inside _ _ _ (by simpa using below), read_getElem,
    overlay_inside _ _ _ below, isMissing, Option.getD_none, Option.getD_none] at here

end Dift.Foundation.Memory
