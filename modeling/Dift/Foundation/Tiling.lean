import Mathlib.Algebra.Order.Floor.Div
import Dift.Foundation.Memory

/-!
Owns the combinatorics of cutting a list into consecutive blocks and pasting
the blocks back, in any order and with any of them missing, into a memory.
`layout` assigns every block its index, `weight` counts the values of some
placed blocks, and `paste` writes them. A duplicate-free selection of the
blocks weighs as much as the whole only if it is the whole, and then the paste
restores the list.
-/

namespace Dift.Foundation

/-- A block of values together with the index it belongs at. -/
structure Placed (α : Type*) where
  offset : Nat
  block : List α
deriving DecidableEq, Repr

variable {α : Type*}

namespace Placed

/-- The block holds the value that belongs at `index`. -/
def Covers (piece : Placed α) (index : Nat) : Prop :=
  piece.offset ≤ index ∧ index < piece.offset + piece.block.length

instance (piece : Placed α) (index : Nat) : Decidable (piece.Covers index) := by
  unfold Covers
  infer_instance

/-- The block holds what `whole` has at its place. -/
def Agrees (whole : List α) (piece : Placed α) : Prop :=
  ∀ index, (below : index < piece.block.length) →
    whole[piece.offset + index]? = some piece.block[index]

/-- Where two blocks overlap they hold the same values. -/
def Matches (first second : Placed α) : Prop :=
  ∀ (inner : Nat) (within : inner < first.block.length) (place : Nat)
    (below : place < second.block.length), first.offset + inner = second.offset + place →
    first.block[inner] = second.block[place]

theorem Agrees.end_le {whole : List α} {piece : Placed α} (agrees : piece.Agrees whole)
    (nonempty : piece.block ≠ []) : piece.offset + piece.block.length ≤ whole.length := by
  have positive : 0 < piece.block.length := List.length_pos_iff.mpr nonempty
  have last := agrees (piece.block.length - 1) (by omega)
  rcases List.getElem?_eq_some_iff.mp last with ⟨below, -⟩
  omega

end Placed

/-- Number of values in some placed blocks. -/
def weight (pieces : List (Placed α)) : Nat :=
  (pieces.map fun piece => piece.block.length).sum

@[simp] theorem weight_nil : weight ([] : List (Placed α)) = 0 := rfl

@[simp] theorem weight_cons (piece : Placed α) (pieces : List (Placed α)) :
    weight (piece :: pieces) = piece.block.length + weight pieces := by
  simp [weight]

@[simp] theorem weight_append (first second : List (Placed α)) :
    weight (first ++ second) = weight first + weight second := by
  simp [weight]

theorem weight_perm {first second : List (Placed α)} (same : first.Perm second) :
    weight first = weight second :=
  (same.map _).sum_eq

theorem length_le_weight {pieces : List (Placed α)}
    (nonempty : ∀ piece ∈ pieces, piece.block ≠ []) : pieces.length ≤ weight pieces := by
  induction pieces with
  | nil => exact le_rfl
  | cons piece rest inductionHypothesis =>
      have here := List.length_pos_iff.mpr (nonempty piece (by simp))
      have later := inductionHypothesis fun other member => nonempty other (by simp [member])
      rw [List.length_cons, weight_cons]
      omega

/-! ### Laying blocks end to end -/

/-- Consecutive blocks, the first one at `start`. -/
def layout : Nat → List (List α) → List (Placed α)
  | _, [] => []
  | start, block :: rest => ⟨start, block⟩ :: layout (start + block.length) rest

@[simp] theorem layout_length (start : Nat) (blocks : List (List α)) :
    (layout start blocks).length = blocks.length := by
  induction blocks generalizing start with
  | nil => rfl
  | cons block rest inductionHypothesis =>
      rw [layout, List.length_cons, inductionHypothesis, List.length_cons]

theorem weight_layout (start : Nat) (blocks : List (List α)) :
    weight (layout start blocks) = blocks.flatten.length := by
  induction blocks generalizing start with
  | nil => rfl
  | cons block rest inductionHypothesis => simp [layout, inductionHypothesis]

theorem layout_append (start : Nat) (first second : List (List α)) :
    layout start (first ++ second) =
      layout start first ++ layout (start + first.flatten.length) second := by
  induction first generalizing start with
  | nil => simp [layout]
  | cons block rest inductionHypothesis =>
      simp [layout, inductionHypothesis, Nat.add_assoc]

theorem mem_layout_block {start : Nat} {blocks : List (List α)} {piece : Placed α}
    (member : piece ∈ layout start blocks) : piece.block ∈ blocks := by
  induction blocks generalizing start with
  | nil => cases member
  | cons block rest inductionHypothesis =>
      rcases List.mem_cons.mp member with rfl | later
      · simp
      · exact List.mem_cons_of_mem _ (inductionHypothesis later)

theorem mem_layout_start_le {start : Nat} {blocks : List (List α)} {piece : Placed α}
    (member : piece ∈ layout start blocks) : start ≤ piece.offset := by
  induction blocks generalizing start with
  | nil => cases member
  | cons block rest inductionHypothesis =>
      rcases List.mem_cons.mp member with rfl | later
      · exact le_rfl
      · exact le_trans (Nat.le_add_right _ _) (inductionHypothesis later)

theorem mem_layout_end_le {start : Nat} {blocks : List (List α)} {piece : Placed α}
    (member : piece ∈ layout start blocks) :
    piece.offset + piece.block.length ≤ start + blocks.flatten.length := by
  induction blocks generalizing start with
  | nil => cases member
  | cons block rest inductionHypothesis =>
      rw [List.flatten_cons, List.length_append]
      rcases List.mem_cons.mp member with rfl | later
      · dsimp only
        omega
      · have inRest := inductionHypothesis later
        omega

theorem layout_pairwise (start : Nat) (blocks : List (List α)) :
    (layout start blocks).Pairwise fun first second =>
      first.offset + first.block.length ≤ second.offset := by
  induction blocks generalizing start with
  | nil => exact List.Pairwise.nil
  | cons block rest inductionHypothesis =>
      refine List.Pairwise.cons ?_ (inductionHypothesis _)
      intro piece member
      exact mem_layout_start_le member

/-- Nonempty blocks lie at different places. -/
theorem layout_nodup (start : Nat) {blocks : List (List α)}
    (nonempty : ∀ block ∈ blocks, block ≠ []) : (layout start blocks).Nodup := by
  apply (layout_pairwise start blocks).imp_of_mem
  intro first second member _ apart same
  have positive := List.length_pos_iff.mpr (nonempty _ (mem_layout_block member))
  rw [same] at apart positive
  omega

theorem layout_agrees_append (before : List α) {blocks : List (List α)} {piece : Placed α}
    (member : piece ∈ layout before.length blocks) :
    piece.Agrees (before ++ blocks.flatten) := by
  induction blocks generalizing before with
  | nil => cases member
  | cons block rest inductionHypothesis =>
      rcases List.mem_cons.mp member with rfl | later
      · intro index below
        simp only at below ⊢
        rw [List.getElem?_append_right (by omega), Nat.add_sub_cancel_left, List.flatten_cons,
          List.getElem?_append_left below, List.getElem?_eq_getElem below]
      · have shifted := inductionHypothesis (before ++ block) (by simpa using later)
        simpa using shifted

/-- Every laid out block agrees with the concatenation. -/
theorem layout_agrees {blocks : List (List α)} {piece : Placed α}
    (member : piece ∈ layout 0 blocks) : piece.Agrees blocks.flatten := by
  simpa using layout_agrees_append [] member

/-- Every place of the concatenation is covered. -/
theorem layout_covers (start : Nat) {blocks : List (List α)} {index : Nat} (above : start ≤ index)
    (below : index < start + blocks.flatten.length) :
    ∃ piece ∈ layout start blocks, piece.Covers index := by
  induction blocks generalizing start with
  | nil => simp at below; omega
  | cons block rest inductionHypothesis =>
      by_cases here : index < start + block.length
      · exact ⟨_, List.mem_cons_self, above, here⟩
      · rcases inductionHypothesis (start + block.length)
          (by omega) (by rw [List.flatten_cons, List.length_append] at below; omega) with
          ⟨piece, member, covers⟩
        exact ⟨piece, List.mem_cons_of_mem _ member, covers⟩

/-! ### Cutting evenly -/

/-- Blocks of one size, the last ones of what remains, fill the whole. -/
theorem flatten_even_length {blocks : Nat → List α} {size total : Nat}
    (even : ∀ index, (blocks index).length = min size (total - index * size)) (count : Nat) :
    ((List.range count).map blocks).flatten.length = min (count * size) total := by
  induction count with
  | zero => simp
  | succ count inductionHypothesis =>
      rw [List.range_succ, List.map_append, List.flatten_append, List.length_append,
        inductionHypothesis, List.map_singleton, List.flatten_singleton, even, Nat.succ_mul]
      omega

/-- Blocks of one size are laid out at its multiples. -/
theorem layout_even {blocks : Nat → List α} {size total : Nat}
    (even : ∀ index, (blocks index).length = min size (total - index * size)) (count : Nat) :
    layout 0 ((List.range count).map blocks) =
      (List.range count).map fun index => ⟨min (index * size) total, blocks index⟩ := by
  induction count with
  | zero => rfl
  | succ count inductionHypothesis =>
      rw [List.range_succ, List.map_append, layout_append, inductionHypothesis, Nat.zero_add,
        flatten_even_length even, List.map_append]
      rfl

/-- Every one of the blocks that are needed is long enough exactly when the
size and what is left for the last one are. -/
theorem even_le_iff {size total : Nat} (positive : 0 < size) (least : Nat) :
    (∀ index < total ⌈/⌉ size, least ≤ min size (total - index * size)) ↔
      total = 0 ∨ (least ≤ size ∧ (total % size = 0 ∨ least ≤ total % size)) := by
  have needed (index : Nat) : index < total ⌈/⌉ size ↔ index * size < total := by
    rw [lt_iff_lt_of_le_iff_le (ceilDiv_le_iff_le_mul positive), Nat.mul_comm]
  have split := Nat.div_add_mod' total size
  constructor
  · intro enough
    rcases Nat.eq_zero_or_pos total with isZero | positive
    · exact .inl isZero
    · have first := enough 0 ((needed 0).mpr (by omega))
      refine .inr ⟨by omega, ?_⟩
      rcases Nat.eq_zero_or_pos (total % size) with whole | rest
      · exact .inl whole
      · have last := enough (total / size) ((needed _).mpr (by omega))
        exact .inr (by omega)
  · intro either index below
    rcases either with rfl | ⟨sizeEnough, restEnough⟩
    · rw [needed] at below
      omega
    · rw [needed] at below
      have within : index ≤ total / size := by
        rw [Nat.le_div_iff_mul_le positive]
        omega
      rcases within.lt_or_eq with full | last
      · have next := Nat.mul_le_mul_right size (Nat.succ_le_of_lt full)
        rw [Nat.succ_mul] at next
        omega
      · subst last
        omega

/-! ### Selections -/

/-- A duplicate-free selection leaves something of the whole behind. -/
theorem exists_missing {selected whole : List (Placed α)} (nodup : selected.Nodup)
    (subset : selected ⊆ whole) :
    ∃ missing, (selected ++ missing).Perm whole ∧
      weight selected + weight missing = weight whole := by
  rcases List.subperm_of_subset nodup subset with ⟨arranged, same, sublist⟩
  rcases sublist.exists_perm_append with ⟨missing, split⟩
  have whole := (same.symm.append_right missing).trans split.symm
  refine ⟨missing, whole, ?_⟩
  rw [← weight_append, weight_perm whole]

/-- A duplicate-free selection that weighs as much as the whole is the whole,
up to order. -/
theorem perm_of_weight_le {selected whole : List (Placed α)} (nodup : selected.Nodup)
    (subset : selected ⊆ whole) (nonempty : ∀ piece ∈ whole, piece.block ≠ [])
    (heavy : weight whole ≤ weight selected) : selected.Perm whole := by
  rcases exists_missing nodup subset with ⟨missing, split, total⟩
  have missingNil : missing = [] := by
    cases missing with
    | nil => rfl
    | cons piece rest =>
        have inWhole : piece ∈ whole := split.subset (by simp)
        have positive := List.length_pos_iff.mpr (nonempty piece inWhole)
        rw [weight_cons] at total
        omega
  rwa [missingNil, List.append_nil] at split

theorem weight_le_of_subset {selected whole : List (Placed α)} (nodup : selected.Nodup)
    (subset : selected ⊆ whole) : weight selected ≤ weight whole := by
  rcases exists_missing nodup subset with ⟨missing, -, total⟩
  omega

/-! ### Pasting -/

/-- Write some placed blocks into a memory, one after the other. -/
def paste (memory : Memory α) (pieces : List (Placed α)) : Memory α :=
  pieces.foldl (fun current piece => current.write piece.offset piece.block) memory

@[simp] theorem paste_nil (memory : Memory α) : paste memory [] = memory := rfl

@[simp] theorem paste_cons (memory : Memory α) (piece : Placed α) (pieces : List (Placed α)) :
    paste memory (piece :: pieces) = paste (memory.write piece.offset piece.block) pieces := rfl

@[simp] theorem paste_append (memory : Memory α) (first second : List (Placed α)) :
    paste memory (first ++ second) = paste (paste memory first) second := by
  simp [paste]

theorem paste_uncovered (memory : Memory α) {pieces : List (Placed α)} {index : Nat}
    (free : ∀ piece ∈ pieces, ¬ piece.Covers index) : paste memory pieces index = memory index := by
  induction pieces generalizing memory with
  | nil => rfl
  | cons piece rest inductionHypothesis =>
      have here := free piece (by simp)
      rw [paste_cons, inductionHypothesis _ (fun other member => free other (by simp [member]))]
      apply Memory.write_outside
      unfold Placed.Covers at here
      omega

/-- A place that at most one block covers keeps its value exactly when that block
holds it too. -/
theorem paste_eq_self_iff (memory : Memory α) {pieces : List (Placed α)} {index : Nat}
    (single : pieces.Pairwise fun first second => first.Covers index → ¬ second.Covers index) :
    paste memory pieces index = memory index ↔
      ∀ piece ∈ pieces, ∀ (place : Nat) (below : place < piece.block.length),
        piece.offset + place = index → piece.block[place] = memory index := by
  induction pieces generalizing memory with
  | nil => simp
  | cons piece rest inductionHypothesis =>
      rcases List.pairwise_cons.mp single with ⟨apart, restSingle⟩
      rw [paste_cons, List.forall_mem_cons]
      by_cases covers : piece.Covers index
      · have free := fun other member => apart other member covers
        rcases Nat.exists_eq_add_of_le covers.1 with ⟨inner, rfl⟩
        have within : inner < piece.block.length := Nat.lt_of_add_lt_add_left covers.2
        rw [paste_uncovered _ free, Memory.write_inside _ _ _ within]
        constructor
        · refine fun same => ⟨fun place below here => ?_, fun other member place below here => ?_⟩
          · cases Nat.add_left_cancel here
            exact same
          · exact absurd ⟨by omega, by omega⟩ (free other member)
        · intro both
          obtain ⟨here, -⟩ := both
          exact here inner within rfl
      · have kept : memory.write piece.offset piece.block index = memory index := by
          apply Memory.write_outside
          unfold Placed.Covers at covers
          omega
        have later := inductionHypothesis (memory.write piece.offset piece.block) restSingle
        rw [kept] at later
        rw [later, iff_and_self]
        intro _ place below here
        exact absurd ⟨by omega, by omega⟩ covers

/-- A block that was written still stands after others were exactly when they
match it, provided that no two of them cover one of its places. -/
theorem read_paste_written_iff (memory : Memory α) (piece : Placed α) {after : List (Placed α)}
    (single : ∀ index, piece.Covers index →
      after.Pairwise fun first second => first.Covers index → ¬ second.Covers index) :
    (paste (memory.write piece.offset piece.block) after).read piece.offset piece.block.length =
        piece.block ↔ ∀ other ∈ after, piece.Matches other := by
  have written := Memory.read_write_self memory piece.offset piece.block
  have cells := Memory.read_eq_iff (paste (memory.write piece.offset piece.block) after)
    (memory.write piece.offset piece.block) piece.offset piece.offset piece.block.length
  rw [written] at cells
  rw [cells]
  constructor
  · intro kept other member inner within place below same
    have here := (paste_eq_self_iff _ (single _ ⟨by omega, by omega⟩)).mp (kept inner within)
      other member place below same.symm
    rw [here, Memory.write_inside _ _ _ within]
  · intro allMatch inner within
    refine (paste_eq_self_iff _ (single _ ⟨by omega, by omega⟩)).mpr ?_
    intro other member place below same
    rw [Memory.write_inside _ _ _ within]
    exact (allMatch other member inner within place below same.symm).symm

private theorem write_covered {whole : List α} (memory : Memory α) {piece : Placed α}
    (agrees : piece.Agrees whole) {index : Nat} (covers : piece.Covers index) :
    some (memory.write piece.offset piece.block index) = whole[index]? := by
  rcases covers with ⟨above, below⟩
  obtain ⟨inner, rfl⟩ : ∃ inner, index = piece.offset + inner := ⟨index - piece.offset, by omega⟩
  rw [Memory.write_inside _ _ _ (by omega), agrees inner (by omega)]

/-- Where some block was pasted, the memory holds the value of the whole. -/
theorem paste_covered {whole : List α} (memory : Memory α) {pieces : List (Placed α)}
    (agree : ∀ piece ∈ pieces, piece.Agrees whole) {index : Nat}
    (covered : ∃ piece ∈ pieces, piece.Covers index) :
    some (paste memory pieces index) = whole[index]? := by
  induction pieces generalizing memory with
  | nil => simp at covered
  | cons piece rest inductionHypothesis =>
      have restAgree : ∀ other ∈ rest, other.Agrees whole := fun other member =>
        agree other (by simp [member])
      rw [paste_cons]
      by_cases later : ∃ other ∈ rest, other.Covers index
      · exact inductionHypothesis _ restAgree later
      · rcases covered with ⟨other, member, covers⟩
        rcases List.mem_cons.mp member with rfl | inRest
        · rw [paste_uncovered _ (fun one oneMember oneCovers => later ⟨one, oneMember, oneCovers⟩)]
          exact write_covered memory (agree other (by simp)) covers
        · exact absurd ⟨other, inRest, covers⟩ later

/-- What blocks of one whole leave behind depends only on the places they
cover. -/
theorem paste_congr (whole : List α) (memory : Memory α) {first second : List (Placed α)}
    (firstAgree : ∀ piece ∈ first, piece.Agrees whole)
    (secondAgree : ∀ piece ∈ second, piece.Agrees whole) {index : Nat}
    (same : (∃ piece ∈ first, piece.Covers index) ↔ ∃ piece ∈ second, piece.Covers index) :
    paste memory first index = paste memory second index := by
  by_cases covered : ∃ piece ∈ first, piece.Covers index
  · apply Option.some.inj
    rw [paste_covered memory firstAgree covered, paste_covered memory secondAgree (same.mp covered)]
  · have uncovered : ¬ ∃ piece ∈ second, piece.Covers index := fun other =>
      covered (same.mpr other)
    rw [paste_uncovered memory fun piece member covers => covered ⟨piece, member, covers⟩,
      paste_uncovered memory fun piece member covers => uncovered ⟨piece, member, covers⟩]

/-- Blocks can be left out without a trace exactly when each place of theirs is
covered by a block that stays, or held its value already. -/
theorem read_paste_append_iff (whole : List α) (memory : Memory α)
    {kept dropped : List (Placed α)} (keptAgree : ∀ piece ∈ kept, piece.Agrees whole)
    (droppedAgree : ∀ piece ∈ dropped, piece.Agrees whole) {count : Nat}
    (inside : ∀ piece ∈ dropped, piece.offset + piece.block.length ≤ count) :
    (paste memory kept).read 0 count = (paste memory (kept ++ dropped)).read 0 count ↔
      ∀ piece ∈ dropped, ∀ index, piece.Covers index →
        (∃ other ∈ kept, other.Covers index) ∨ some (memory index) = whole[index]? := by
  have allAgree : ∀ piece ∈ kept ++ dropped, piece.Agrees whole := by
    intro piece member
    rcases List.mem_append.mp member with left | right
    · exact keptAgree piece left
    · exact droppedAgree piece right
  rw [Memory.read_eq_iff]
  constructor
  · intro same piece member index covers
    by_cases stays : ∃ other ∈ kept, other.Covers index
    · exact .inl stays
    · right
      have below : index < count := lt_of_lt_of_le covers.2 (inside piece member)
      have held := same index below
      rw [Nat.zero_add, paste_uncovered memory
        fun other otherMember otherCovers => stays ⟨other, otherMember, otherCovers⟩] at held
      rw [held]
      exact paste_covered memory allAgree ⟨piece, by simp [member], covers⟩
  · intro harmless index below
    rw [Nat.zero_add]
    by_cases lost : ∃ piece ∈ dropped, piece.Covers index
    · rcases lost with ⟨piece, member, covers⟩
      apply Option.some.inj
      rw [paste_covered memory allAgree ⟨piece, by simp [member], covers⟩]
      by_cases stays : ∃ other ∈ kept, other.Covers index
      · exact paste_covered memory keptAgree stays
      · rw [paste_uncovered memory
          fun other otherMember otherCovers => stays ⟨other, otherMember, otherCovers⟩]
        exact (harmless piece member index covers).resolve_left stays
    · apply paste_congr whole memory keptAgree allAgree
      constructor
      · intro covered
        obtain ⟨piece, member, covers⟩ := covered
        exact ⟨piece, by simp [member], covers⟩
      · intro covered
        obtain ⟨piece, member, covers⟩ := covered
        rcases List.mem_append.mp member with left | right
        · exact ⟨piece, left, covers⟩
        · exact absurd ⟨piece, right, covers⟩ lost

/-- Pasting all blocks of a layout, in any order, restores the concatenation. -/
theorem read_paste_layout (memory : Memory α) {blocks : List (List α)} {pieces : List (Placed α)}
    (inside : ∀ piece ∈ pieces, piece ∈ layout 0 blocks)
    (all : ∀ piece ∈ layout 0 blocks, piece ∈ pieces) :
    (paste memory pieces).read 0 blocks.flatten.length = blocks.flatten := by
  apply List.ext_getElem (by simp)
  intro index _ below
  rcases layout_covers 0 (Nat.zero_le index)
    (by simpa using below) with ⟨piece, member, covers⟩
  have held := paste_covered memory (fun one oneMember => layout_agrees (inside one oneMember))
    ⟨piece, all piece member, covers⟩
  rw [Memory.read_getElem, Nat.zero_add]
  rw [List.getElem?_eq_getElem below, Option.some.injEq] at held
  exact held

/-- Pasting all blocks of a layout, in any order, is writing the
concatenation. -/
theorem paste_eq_write (memory : Memory α) {blocks : List (List α)} {pieces : List (Placed α)}
    (all : pieces.Perm (layout 0 blocks)) :
    paste memory pieces = memory.write 0 blocks.flatten := by
  funext index
  by_cases inside : index < blocks.flatten.length
  · have held := read_paste_layout memory (fun _ member => all.subset member)
      fun _ member => all.symm.subset member
    have here := (Memory.read_eq_iff _ (memory.write 0 blocks.flatten) 0 0 _).mp
      (held.trans (Memory.read_write_self memory 0 blocks.flatten).symm) index inside
    rwa [Nat.zero_add] at here
  · rw [Memory.write_outside _ _ _ (by omega)]
    apply paste_uncovered
    intro piece member covers
    have ends := mem_layout_end_le (all.subset member)
    have before := covers.2
    omega

end Dift.Foundation
