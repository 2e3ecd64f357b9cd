import Mathlib.Tactic

/-!
Owns an unbounded flat memory with block reads and writes, over any cell type.
Every law is about how one block operation is seen by another: a read after a
write of the same block, of a disjoint block, and the splitting of blocks.
Bounds are not part of the memory; a client that needs them states them.
-/

namespace Dift.Foundation

/-- A flat memory: one cell at every address. -/
abbrev Memory (α : Type*) := Nat → α

namespace Memory

variable {α : Type*}

/-- The `count` cells from `start` on. -/
def read (memory : Memory α) (start count : Nat) : List α :=
  (List.range count).map fun index => memory (start + index)

/-- Overwrite the cells from `start` on by `block`. -/
def write (memory : Memory α) (start : Nat) (block : List α) : Memory α := fun address =>
  if start ≤ address then (block[address - start]?).getD (memory address) else memory address

@[simp] theorem read_length (memory : Memory α) (start count : Nat) :
    (memory.read start count).length = count := by
  simp [read]

@[simp] theorem read_zero (memory : Memory α) (start : Nat) : memory.read start 0 = [] := rfl

theorem read_succ (memory : Memory α) (start count : Nat) :
    memory.read start (count + 1) = memory start :: memory.read (start + 1) count := by
  simp [read, List.range_succ_eq_map, Nat.add_assoc, Nat.add_comm 1]

theorem write_inside (memory : Memory α) (start : Nat) (block : List α) {index : Nat}
    (below : index < block.length) : memory.write start block (start + index) = block[index] := by
  simp [write, below]

theorem write_outside (memory : Memory α) (start : Nat) (block : List α) {address : Nat}
    (outside : address < start ∨ start + block.length ≤ address) :
    memory.write start block address = memory address := by
  unfold write
  split_ifs with atLeast
  · have past : block.length ≤ address - start := by omega
    simp [List.getElem?_eq_none past]
  · rfl

theorem read_getElem (memory : Memory α) (start count : Nat) {index : Nat}
    (below : index < (memory.read start count).length) :
    (memory.read start count)[index] = memory (start + index) := by
  simp [read]

/-- Two memories agree on a block exactly when they agree cell by cell. -/
theorem read_eq_iff (left right : Memory α) (start other count : Nat) :
    left.read start count = right.read other count ↔
      ∀ index < count, left (start + index) = right (other + index) := by
  simp [read, List.map_inj_left]

theorem read_congr {left right : Memory α} {start count : Nat}
    (agree : ∀ address, start ≤ address → address < start + count →
      left address = right address) :
    left.read start count = right.read start count := by
  rw [read_eq_iff]
  intro index below
  exact agree _ (by omega) (by omega)

@[simp] theorem write_nil (memory : Memory α) (start : Nat) : memory.write start [] = memory := by
  funext address
  apply write_outside
  exact Nat.lt_or_ge address start

/-- A block reads back as it was written. -/
@[simp] theorem read_write_self (memory : Memory α) (start : Nat) (block : List α) :
    (memory.write start block).read start block.length = block := by
  apply List.ext_getElem (by simp)
  intro index _ below
  rw [read_getElem, write_inside memory start block below]

/-- A write does not show in a disjoint block. -/
theorem read_write_disjoint (memory : Memory α) (start : Nat) (block : List α) {other count : Nat}
    (disjoint : other + count ≤ start ∨ start + block.length ≤ other) :
    (memory.write start block).read other count = memory.read other count := by
  apply read_congr
  intro address atLeast below
  exact write_outside memory start block (by omega)

theorem read_add (memory : Memory α) (start first second : Nat) :
    memory.read start (first + second) =
      memory.read start first ++ memory.read (start + first) second := by
  simp [read, List.range_add, Nat.add_assoc]

/-- A block that holds a concatenation holds both parts. -/
theorem read_split {memory : Memory α} {start count : Nat} {first second : List α}
    (held : memory.read start count = first ++ second) :
    memory.read start first.length = first ∧
      memory.read (start + first.length) second.length = second := by
  have total : count = first.length + second.length := by
    simpa using congrArg List.length held
  rw [total, read_add] at held
  exact List.append_inj held (by simp)

/-- The first cells of a block. -/
theorem read_take {memory : Memory α} {start total : Nat} {held : List α}
    (holds : memory.read start total = held) {count : Nat} (le : count ≤ total) :
    memory.read start count = held.take count := by
  rcases Nat.exists_eq_add_of_le le with ⟨rest, rfl⟩
  rw [← holds, read_add]
  simp

/-- The cells of a block after the first ones. -/
theorem read_drop {memory : Memory α} {start total : Nat} {held : List α}
    (holds : memory.read start total = held) {count : Nat} (le : count ≤ total) :
    memory.read (start + count) (total - count) = held.drop count := by
  rcases Nat.exists_eq_add_of_le le with ⟨rest, rfl⟩
  rw [← holds, read_add]
  simp

/-- Two adjacent writes are one write. -/
theorem write_append (memory : Memory α) (start : Nat) (first second : List α) :
    (memory.write start first).write (start + first.length) second =
      memory.write start (first ++ second) := by
  funext address
  by_cases below : address < start
  · rw [write_outside _ _ _ (by omega), write_outside _ _ _ (by omega),
      write_outside _ _ _ (by omega)]
  · obtain ⟨index, rfl⟩ : ∃ index, address = start + index := ⟨address - start, by omega⟩
    by_cases inFirst : index < first.length
    · rw [write_outside _ _ _ (by omega), write_inside _ _ _ inFirst,
        write_inside _ _ _ (by simp; omega), List.getElem_append_left inFirst]
    · obtain ⟨offset, rfl⟩ : ∃ offset, index = first.length + offset :=
        ⟨index - first.length, by omega⟩
      by_cases inSecond : offset < second.length
      · rw [← Nat.add_assoc, write_inside _ _ _ inSecond, Nat.add_assoc,
          write_inside _ _ _ (by simp; omega), List.getElem_append_right (by omega)]
        simp
      · rw [write_outside _ _ _ (by omega), write_outside _ _ _ (by omega),
          write_outside _ _ _ (by simp; omega)]

/-- Writing a block over one of the same length leaves no trace of the first. -/
theorem write_write (memory : Memory α) (start : Nat) {first second : List α}
    (sameLength : first.length = second.length) :
    (memory.write start first).write start second = memory.write start second := by
  funext address
  by_cases inside : start ≤ address ∧ address < start + second.length
  · obtain ⟨index, rfl⟩ : ∃ index, address = start + index := ⟨address - start, by omega⟩
    rw [write_inside _ _ _ (by omega), write_inside _ _ _ (by omega)]
  · rw [write_outside _ _ _ (by omega), write_outside _ _ _ (by omega),
      write_outside _ _ _ (by omega)]

/-- Disjoint writes commute. -/
theorem write_comm (memory : Memory α) {first second : Nat} {one two : List α}
    (disjoint : first + one.length ≤ second ∨ second + two.length ≤ first) :
    (memory.write first one).write second two = (memory.write second two).write first one := by
  funext address
  by_cases inOne : first ≤ address ∧ address < first + one.length
  · rw [write_outside _ second _ (by omega)]
    obtain ⟨index, rfl⟩ : ∃ index, address = first + index := ⟨address - first, by omega⟩
    rw [write_inside _ _ _ (by omega), write_inside _ _ _ (by omega)]
  · rw [write_outside _ first _ (by omega)]
    by_cases inTwo : second ≤ address ∧ address < second + two.length
    · obtain ⟨index, rfl⟩ : ∃ index, address = second + index := ⟨address - second, by omega⟩
      rw [write_inside _ _ _ (by omega), write_inside _ _ _ (by omega)]
    · rw [write_outside _ second _ (by omega), write_outside _ second _ (by omega),
        write_outside _ first _ (by omega)]

/-- Writing back what a block holds changes nothing. -/
theorem write_read (memory : Memory α) (start count : Nat) :
    memory.write start (memory.read start count) = memory := by
  funext address
  by_cases inside : start ≤ address ∧ address < start + count
  · obtain ⟨index, rfl⟩ : ∃ index, address = start + index := ⟨address - start, by omega⟩
    rw [write_inside _ _ _ (by simp; omega), read_getElem]
  · exact write_outside _ _ _ (by simp; omega)

/-- What already stands behind a block can be written with it. -/
theorem write_append_held {memory : Memory α} {start : Nat} {block rest : List α}
    (held : memory.read (start + block.length) rest.length = rest) :
    memory.write start (block ++ rest) = memory.write start block := by
  have after : (memory.write start block).read (start + block.length) rest.length = rest := by
    rw [read_write_disjoint memory start block (.inr le_rfl), held]
  have back := write_read (memory.write start block) (start + block.length) rest.length
  rwa [after, write_append] at back

end Memory

end Dift.Foundation
