import Mathlib.Tactic

/-!
Owns finite trees with their nodes in preorder and in level order, and the
worklist: take the first pending tree, visit it, and join its children with the
rest. Where the join only rearranges, every node is visited once. Children put
in front give the preorder, children put behind give the level order.
-/

namespace Dift.Foundation

/-- A finite tree: a label and the children from left to right. -/
inductive RoseTree (α : Type*) where
  | node (label : α) (children : List (RoseTree α))

namespace RoseTree

variable {α : Type*}

def label : RoseTree α → α
  | .node label _ => label

def children : RoseTree α → List (RoseTree α)
  | .node _ children => children

mutual

/-- Every node before its children, the children from left to right. -/
def preorder : RoseTree α → List (RoseTree α)
  | .node label children => .node label children :: preorderAll children

def preorderAll : List (RoseTree α) → List (RoseTree α)
  | [] => []
  | tree :: rest => preorder tree ++ preorderAll rest

end

mutual

/-- The number of levels. -/
def height : RoseTree α → Nat
  | .node _ children => heightAll children + 1

def heightAll : List (RoseTree α) → Nat
  | [] => 0
  | tree :: rest => max (height tree) (heightAll rest)

end

/-- The nodes so many steps below the root, from left to right. -/
def level : Nat → RoseTree α → List (RoseTree α)
  | 0, tree => [tree]
  | depth + 1, tree => tree.children.flatMap (level depth)

/-- Level by level from the root on. -/
def levelOrder (tree : RoseTree α) : List (RoseTree α) :=
  (List.range tree.height).flatMap fun depth => tree.level depth

theorem preorderAll_eq (trees : List (RoseTree α)) :
    preorderAll trees = trees.flatMap preorder := by
  induction trees with
  | nil => rfl
  | cons tree rest inductionHypothesis =>
      rw [preorderAll, inductionHypothesis, List.flatMap_cons]

theorem preorder_eq (tree : RoseTree α) :
    tree.preorder = tree :: tree.children.flatMap preorder := by
  cases tree with
  | node label children => rw [preorder, preorderAll_eq, RoseTree.children]

theorem heightAll_le_iff (trees : List (RoseTree α)) (bound : Nat) :
    heightAll trees ≤ bound ↔ ∀ tree ∈ trees, tree.height ≤ bound := by
  induction trees with
  | nil => simp [heightAll]
  | cons tree rest inductionHypothesis => simp [heightAll, inductionHypothesis]

theorem height_eq (tree : RoseTree α) : tree.height = heightAll tree.children + 1 := by
  cases tree with
  | node label children => rw [height, RoseTree.children]

/-- Children are lower than their parent. -/
theorem height_child_le {tree child : RoseTree α} {bound : Nat} (low : tree.height ≤ bound + 1)
    (isChild : child ∈ tree.children) : child.height ≤ bound := by
  rw [height_eq, Nat.add_le_add_iff_right, heightAll_le_iff] at low
  exact low child isChild

theorem height_pos (tree : RoseTree α) : 0 < tree.height := by
  rw [height_eq]
  omega

/-! ### Worklists -/

/-- Working off a list of pending trees: what is visited, in order. -/
inductive Visits (join : List (RoseTree α) → List (RoseTree α) → List (RoseTree α)) :
    List (RoseTree α) → List (RoseTree α) → Prop where
  | nil : Visits join [] []
  | cons {tree : RoseTree α} {rest later : List (RoseTree α)}
      (next : Visits join (join tree.children rest) later) :
      Visits join (tree :: rest) (tree :: later)

variable {join : List (RoseTree α) → List (RoseTree α) → List (RoseTree α)}

/-- Joining loses and adds nothing. -/
def Rearranges (join : List (RoseTree α) → List (RoseTree α) → List (RoseTree α)) : Prop :=
  ∀ kids rest, (join kids rest).Perm (kids ++ rest)

/-- The nodes of the pending trees are those of the first, and those of what is
pending after it. -/
theorem flatMap_preorder_join (rearranges : Rearranges join) (tree : RoseTree α)
    (rest : List (RoseTree α)) :
    ((tree :: rest).flatMap preorder).Perm
      (tree :: (join tree.children rest).flatMap preorder) := by
  rw [List.flatMap_cons, preorder_eq, List.cons_append, ← List.flatMap_append]
  apply List.Perm.cons
  exact ((rearranges tree.children rest).flatMap_right preorder).symm

/-- A worklist is worked off. -/
theorem exists_visits (rearranges : Rearranges join) (pending : List (RoseTree α)) :
    ∃ visited, Visits join pending visited := by
  induction size : (pending.flatMap preorder).length generalizing pending with
  | zero =>
      cases pending with
      | nil => exact ⟨[], .nil⟩
      | cons tree rest =>
          rw [List.flatMap_cons, preorder_eq, List.cons_append, List.length_cons] at size
          omega
  | succ size inductionHypothesis =>
      cases pending with
      | nil => simp at size
      | cons tree rest =>
          have smaller := (flatMap_preorder_join rearranges tree rest).length_eq
          rw [size, List.length_cons, Nat.add_right_cancel_iff] at smaller
          obtain ⟨later, visits⟩ := inductionHypothesis _ smaller.symm
          exact ⟨tree :: later, .cons visits⟩

/-- Every node is visited as often as it is there. -/
theorem Visits.perm (rearranges : Rearranges join) {pending visited : List (RoseTree α)}
    (visits : Visits join pending visited) : visited.Perm (pending.flatMap preorder) := by
  induction visits with
  | nil => exact .nil
  | cons _ inductionHypothesis =>
      apply List.Perm.trans (inductionHypothesis.cons _)
      exact (flatMap_preorder_join rearranges _ _).symm

/-! ### Depth first -/

theorem rearranges_front : Rearranges (α := α) fun kids rest => kids ++ rest :=
  fun _ _ => .rfl

/-- With the children in front, one pending tree after the other is visited in
preorder. -/
theorem Visits.eq_preorder {pending visited : List (RoseTree α)}
    (visits : Visits (fun kids rest => kids ++ rest) pending visited) :
    visited = pending.flatMap preorder := by
  induction visits with
  | nil => rfl
  | cons _ inductionHypothesis =>
      rw [inductionHypothesis, List.flatMap_cons, preorder_eq, List.flatMap_append,
        List.cons_append]

/-! ### Breadth first -/

theorem rearranges_behind : Rearranges (α := α) fun kids rest => rest ++ kids :=
  fun _ _ => List.perm_append_comm

/-- With the children behind, the first trees are visited one after the other,
and their children are pending afterwards. -/
theorem Visits.generation {first others visited : List (RoseTree α)}
    (visits : Visits (fun kids rest => rest ++ kids) (first ++ others) visited) :
    ∃ later, visited = first ++ later ∧
      Visits (fun kids rest => rest ++ kids) (others ++ first.flatMap children) later := by
  induction first generalizing others visited with
  | nil => exact ⟨visited, rfl, by simpa using visits⟩
  | cons tree rest inductionHypothesis =>
      cases visits with
      | cons next =>
          replace next : Visits _ (rest ++ others ++ tree.children) _ := next
          rw [List.append_assoc] at next
          obtain ⟨later, shown, visits⟩ := inductionHypothesis next
          rw [List.append_assoc] at visits
          exact ⟨later, by rw [shown, List.cons_append], by rwa [List.flatMap_cons]⟩

/-- Trees of limited height are visited level by level. -/
theorem Visits.eq_levels {bound : Nat} {pending visited : List (RoseTree α)}
    (low : ∀ tree ∈ pending, tree.height ≤ bound)
    (visits : Visits (fun kids rest => rest ++ kids) pending visited) :
    visited = (List.range bound).flatMap fun depth => pending.flatMap (level depth) := by
  induction bound generalizing pending visited with
  | zero =>
      cases visits with
      | nil => rfl
      | @cons tree =>
          have positive := height_pos tree
          have flat := low tree (List.mem_cons_self ..)
          omega
  | succ bound inductionHypothesis =>
      rw [← List.append_nil pending] at visits
      obtain ⟨later, shown, visits⟩ := visits.generation
      have lower : ∀ child ∈ pending.flatMap children, child.height ≤ bound := by
        intro child member
        obtain ⟨tree, pendingTree, isChild⟩ := List.mem_flatMap.mp member
        exact height_child_le (low tree pendingTree) isChild
      have first : pending.flatMap (level 0) = pending := by
        show pending.flatMap (fun tree => [tree]) = pending
        exact List.flatMap_singleton' pending
      have next (depth : Nat) : (pending.flatMap children).flatMap (level depth) =
          pending.flatMap (level (depth + 1)) := by
        rw [List.flatMap_assoc]
        rfl
      rw [List.nil_append] at visits
      rw [shown, inductionHypothesis lower visits, List.range_succ_eq_map, List.flatMap_cons,
        List.flatMap_map, first]
      simp only [next]

/-- The nodes of one tree are visited in level order. -/
theorem Visits.eq_levelOrder {tree : RoseTree α} {visited : List (RoseTree α)}
    (visits : Visits (fun kids rest => rest ++ kids) [tree] visited) :
    visited = tree.levelOrder := by
  have low : ∀ other ∈ [tree], other.height ≤ tree.height := by
    intro other member
    rw [List.mem_singleton.mp member]
  rw [visits.eq_levels low, levelOrder]
  simp only [List.flatMap_singleton]

/-- Level order and preorder show the same nodes. -/
theorem levelOrder_perm_preorder (tree : RoseTree α) : tree.levelOrder.Perm tree.preorder := by
  obtain ⟨visited, visits⟩ := exists_visits rearranges_behind [tree]
  have nodes := visits.perm rearranges_behind
  rwa [visits.eq_levelOrder, List.flatMap_singleton] at nodes

end RoseTree

end Dift.Foundation
