import Dift.Foundation.Loop
import Dift.Foundation.Traversal

/-!
Owns `nodeIterator` and `nodeBreadthIterator`. Both keep pairs of iterators over
vectors of children, one on a stack and the other in a queue; a pair leaves when
its last child is taken, and the pair of that child's own children enters. What
the pairs have not passed yet are the pending trees of a worklist, so that the
first iterator walks a tree in preorder and the second in level order.
-/

namespace Dift.Evio

open Dift.Foundation

variable {α : Type*}

/-! ### The iterators -/

/-- A pair of iterators of one vector of children: where it is, and the end. -/
structure KidRange (α : Type*) where
  kids : List (RoseTree α)
  first : Nat
  second : Nat

/-- `begin()` and `end()`. -/
def KidRange.all (kids : List (RoseTree α)) : KidRange α := ⟨kids, 0, kids.length⟩

/-- What both iterators hold; the pair that is looked at next comes first. -/
structure TreeIterator (α : Type*) where
  pending : List (KidRange α)
  currentNode : RoseTree α
  isEnd : Bool

/-- The constructors. -/
def TreeIterator.construct (node : RoseTree α) (isEnd : Bool) : TreeIterator α where
  pending := if node.children.isEmpty then [] else [KidRange.all node.children]
  currentNode := node
  isEnd := isEnd

/-- What an increment does to the iterator itself, where `push` puts a pair into
the container. There is no result when an iterator behind the last child is
dereferenced. -/
def TreeIterator.increment (push : KidRange α → List (KidRange α) → List (KidRange α))
    (iterator : TreeIterator α) : Option (TreeIterator α) :=
  if iterator.isEnd then some iterator
  else
    match iterator.pending with
    | [] => some { iterator with isEnd := true }
    | topPair :: below =>
        match topPair.kids[topPair.first]? with
        | none => none
        | some node =>
            -- after a pop the increment only reaches the pair that is gone
            let pending :=
              if (topPair.first : Int) - (topPair.second - 1) = 0 then below
              else { topPair with first := topPair.first + 1 } :: below
            let pending :=
              if node.children.isEmpty then pending else push (KidRange.all node.children) pending
            some { pending := pending, currentNode := node, isEnd := iterator.isEnd }

namespace NodeIterator

/-- A stack. -/
def push (pair : KidRange α) (stack : List (KidRange α)) : List (KidRange α) := pair :: stack

/-- What is returned, and the iterator afterwards. -/
def preIncrement (iterator : TreeIterator α) : Option (TreeIterator α × TreeIterator α) :=
  (iterator.increment push).map fun after => (after, after)

@[inherit_doc preIncrement]
def postIncrement (iterator : TreeIterator α) : Option (TreeIterator α × TreeIterator α) :=
  (iterator.increment push).map fun after => (iterator, after)

end NodeIterator

namespace NodeBreadthIterator

/-- A queue. -/
def push (pair : KidRange α) (que : List (KidRange α)) : List (KidRange α) := que ++ [pair]

@[inherit_doc NodeIterator.preIncrement]
def preIncrement (iterator : TreeIterator α) : Option (TreeIterator α × TreeIterator α) :=
  (iterator.increment push).map fun after => (after, after)

/-- When the queue is empty, not the copy is returned but the iterator itself. -/
def postIncrement (iterator : TreeIterator α) : Option (TreeIterator α × TreeIterator α) :=
  if iterator.isEnd then some (iterator, iterator)
  else if iterator.pending.isEmpty then
    some ({ iterator with isEnd := true }, { iterator with isEnd := true })
  else (iterator.increment push).map fun after => (iterator, after)

end NodeBreadthIterator

/-! ### Walking a tree -/

/-- An operator that increments: what it returns, and the iterator afterwards. -/
abbrev Operator (α : Type*) := TreeIterator α → Option (TreeIterator α × TreeIterator α)

/-- The node is read before the increment. -/
def readBefore (operator : Operator α) (iterator : TreeIterator α) :
    Option (RoseTree α × TreeIterator α) :=
  (operator iterator).map fun result => (iterator.currentNode, result.2)

/-- The node is read from what the increment returns. -/
def readReturned (operator : Operator α) (iterator : TreeIterator α) :
    Option (RoseTree α × TreeIterator α) :=
  (operator iterator).map fun result => (result.1.currentNode, result.2)

/-- The loop of a client: until `isEndIter()` a node is visited and the iterator
advanced. It has no result when an increment has none. -/
def visitRound (advance : TreeIterator α → Option (RoseTree α × TreeIterator α))
    (state : TreeIterator α × List (RoseTree α)) :
    Round (TreeIterator α × List (RoseTree α)) (Option (TreeIterator α × List (RoseTree α))) :=
  if state.1.isEnd then .leave (some state)
  else
    match advance state.1 with
    | none => .leave none
    | some (node, after) => .again (after, state.2 ++ [node])

/-- The loop visits these nodes in this order; then the iterator is at the end,
and it stays there however often it is advanced. -/
def Walks (advance : TreeIterator α → Option (RoseTree α × TreeIterator α))
    (root : RoseTree α) (order : List (RoseTree α)) : Prop :=
  ∃ last, Returns (visitRound advance) (.construct root false, []) (some (last, order)) ∧
    last.isEnd ∧
    ∀ steps, (fun now => now.bind fun it => (advance it).map Prod.snd)^[steps] (some last) =
      some last

/-! ### What is pending -/

/-- The children that a pair has not passed yet. -/
def KidRange.remaining (range : KidRange α) : List (RoseTree α) := range.kids.drop range.first

/-- The trees that have not been entered yet. -/
def TreeIterator.frontier (iterator : TreeIterator α) : List (RoseTree α) :=
  iterator.pending.flatMap KidRange.remaining

/-- Every pair stands on a child, and ends with its vector. -/
def TreeIterator.WellFormed (iterator : TreeIterator α) : Prop :=
  ∀ range ∈ iterator.pending, range.first < range.second ∧ range.second = range.kids.length

/-- The container joins pending trees like this. -/
structure Pushes (push : KidRange α → List (KidRange α) → List (KidRange α))
    (join : List (RoseTree α) → List (RoseTree α) → List (RoseTree α)) : Prop where
  frontier : ∀ range pending, (push range pending).flatMap KidRange.remaining =
    join range.remaining (pending.flatMap KidRange.remaining)
  mem : ∀ range pending other, other ∈ push range pending ↔ other = range ∨ other ∈ pending
  nothing : ∀ rest, join [] rest = rest

theorem pushes_stack :
    Pushes (α := α) NodeIterator.push fun kids rest => kids ++ rest where
  frontier := fun _ _ => List.flatMap_cons
  mem := fun _ _ _ => List.mem_cons
  nothing := fun _ => rfl

theorem pushes_queue :
    Pushes (α := α) NodeBreadthIterator.push fun kids rest => rest ++ kids where
  frontier := by
    intro range pending
    rw [NodeBreadthIterator.push, List.flatMap_append, List.flatMap_singleton]
  mem := by
    intro range pending other
    rw [NodeBreadthIterator.push, List.mem_append, List.mem_singleton, or_comm]
  nothing := List.append_nil

@[simp] theorem KidRange.remaining_all (kids : List (RoseTree α)) :
    (KidRange.all kids).remaining = kids := rfl

theorem KidRange.all_inside {kids : List (RoseTree α)} (hasKids : ¬ kids.isEmpty) :
    (KidRange.all kids).first < (KidRange.all kids).second ∧
      (KidRange.all kids).second = (KidRange.all kids).kids.length := by
  apply And.intro _ rfl
  apply List.length_pos_iff.mpr
  simpa using hasKids

theorem construct_wellFormed (node : RoseTree α) (isEnd : Bool) :
    (TreeIterator.construct node isEnd).WellFormed := by
  intro range member
  simp only [TreeIterator.construct] at member
  split at member
  · cases member
  · rw [List.mem_singleton.mp member]
    exact KidRange.all_inside ‹_›

theorem construct_frontier (node : RoseTree α) (isEnd : Bool) :
    (TreeIterator.construct node isEnd).frontier = node.children := by
  rw [TreeIterator.frontier, TreeIterator.construct]
  split
  next empty => exact (List.isEmpty_iff.mp empty).symm
  next => exact List.flatMap_singleton ..

/-! ### One increment -/

section Increment

variable {push : KidRange α → List (KidRange α) → List (KidRange α)}

theorem increment_end {iterator : TreeIterator α} (ended : iterator.isEnd = true) :
    iterator.increment push = some iterator := by
  rw [TreeIterator.increment, if_pos ended]

theorem increment_last {iterator : TreeIterator α} (running : iterator.isEnd = false)
    (nothingPending : iterator.pending = []) :
    iterator.increment push = some { iterator with isEnd := true } := by
  rw [TreeIterator.increment, if_neg (by simp [running]), nothingPending]

/-- A well-formed iterator with nothing pending has no pairs. -/
theorem pending_eq_nil {iterator : TreeIterator α} (wellFormed : iterator.WellFormed)
    (passed : iterator.frontier = []) : iterator.pending = [] := by
  cases pairs : iterator.pending with
  | nil => rfl
  | cons topPair below =>
      have inside := wellFormed topPair (by simp [pairs])
      rw [TreeIterator.frontier, pairs, List.flatMap_cons] at passed
      have gone := (List.append_eq_nil_iff.mp passed).1
      rw [KidRange.remaining, List.drop_eq_nil_iff] at gone
      omega

/-- Taking the next child of the first pair. -/
theorem remaining_eq_cons {range : KidRange α} (inside : range.first < range.kids.length) :
    ∃ node, range.kids[range.first]? = some node ∧
      range.remaining = node :: { range with first := range.first + 1 }.remaining := by
  apply Exists.intro range.kids[range.first]
  exact ⟨List.getElem?_eq_getElem inside, List.drop_eq_getElem_cons inside⟩

/-- The pairs left after a child has been taken. -/
theorem advanced_frontier {topPair : KidRange α} {below : List (KidRange α)}
    (inside : topPair.first < topPair.second ∧ topPair.second = topPair.kids.length) :
    (if (topPair.first : Int) - (topPair.second - 1) = 0 then below
      else { topPair with first := topPair.first + 1 } :: below).flatMap KidRange.remaining =
      { topPair with first := topPair.first + 1 }.remaining ++
        below.flatMap KidRange.remaining := by
  split
  next last =>
    have passed : { topPair with first := topPair.first + 1 }.remaining = [] := by
      apply List.drop_eq_nil_of_le
      show topPair.kids.length ≤ topPair.first + 1
      omega
    rw [passed, List.nil_append]
  next => exact List.flatMap_cons

theorem advanced_inside {topPair : KidRange α} {below : List (KidRange α)}
    (inside : ∀ range ∈ topPair :: below,
      range.first < range.second ∧ range.second = range.kids.length) :
    ∀ range ∈ (if (topPair.first : Int) - (topPair.second - 1) = 0 then below
      else { topPair with first := topPair.first + 1 } :: below),
      range.first < range.second ∧ range.second = range.kids.length := by
  have topInside := inside topPair (List.mem_cons_self ..)
  intro range member
  split at member
  next => exact inside range (List.mem_cons_of_mem _ member)
  next notLast =>
    cases member with
    | head => exact ⟨by dsimp only; omega, topInside.2⟩
    | tail _ member => exact inside range (List.mem_cons_of_mem _ member)

/-- Where trees are pending the first of them is entered, and its children join
the rest. -/
theorem increment_next {join : List (RoseTree α) → List (RoseTree α) → List (RoseTree α)}
    (pushes : Pushes push join) {iterator : TreeIterator α} (wellFormed : iterator.WellFormed)
    (running : iterator.isEnd = false) {tree : RoseTree α} {rest : List (RoseTree α)}
    (pending : iterator.frontier = tree :: rest) :
    ∃ next, iterator.increment push = some next ∧ next.WellFormed ∧ next.isEnd = false ∧
      next.currentNode = tree ∧ next.frontier = join tree.children rest := by
  cases pairs : iterator.pending with
  | nil => simp [TreeIterator.frontier, pairs] at pending
  | cons topPair below =>
      have inside := wellFormed topPair (by simp [pairs])
      obtain ⟨node, found, remaining⟩ := remaining_eq_cons (by rw [← inside.2]; exact inside.1)
      rw [TreeIterator.frontier, pairs, List.flatMap_cons, remaining, List.cons_append,
        List.cons.injEq] at pending
      obtain ⟨rfl, rfl⟩ := pending
      rw [TreeIterator.increment, if_neg (by simp [running]), pairs]
      dsimp only
      rw [found]
      refine ⟨_, rfl, ?_, running, rfl, ?_⟩
      · rw [TreeIterator.WellFormed, pairs] at wellFormed
        have kept := advanced_inside wellFormed
        intro range member
        dsimp only at member
        split at member
        next => exact kept range member
        next someKids =>
          rw [pushes.mem] at member
          cases member with
          | inl new => exact new ▸ KidRange.all_inside someKids
          | inr old => exact kept range old
      · rw [TreeIterator.frontier]
        dsimp only
        split
        next noKids =>
          rw [List.isEmpty_iff.mp noKids, pushes.nothing, advanced_frontier inside]
        next => rw [pushes.frontier, advanced_frontier inside, KidRange.remaining_all]

end Increment

/-! ### Whole walks -/

/-- The operator increments the iterator, and the node that is read is the one
the iterator was at. -/
def Advances (push : KidRange α → List (KidRange α) → List (KidRange α))
    (advance : TreeIterator α → Option (RoseTree α × TreeIterator α)) : Prop :=
  ∀ iterator, advance iterator =
    (iterator.increment push).map fun after => (iterator.currentNode, after)

section Walk

variable {push : KidRange α → List (KidRange α) → List (KidRange α)}
  {advance : TreeIterator α → Option (RoseTree α × TreeIterator α)}

theorem visitRound_again (advances : Advances push advance) {iterator next : TreeIterator α}
    (running : iterator.isEnd = false) (step : iterator.increment push = some next)
    (visited : List (RoseTree α)) :
    visitRound advance (iterator, visited) =
      .again (next, visited ++ [iterator.currentNode]) := by
  rw [visitRound, if_neg (by simp [running])]
  dsimp only
  rw [advances, step]
  rfl

/-- From any point of the walk on, the current node and then the pending trees
are visited. -/
theorem returns_visits {join : List (RoseTree α) → List (RoseTree α) → List (RoseTree α)}
    (pushes : Pushes push join) (advances : Advances push advance)
    {pending later : List (RoseTree α)} (visits : RoseTree.Visits join pending later)
    {iterator : TreeIterator α} (wellFormed : iterator.WellFormed)
    (running : iterator.isEnd = false) (frontier : iterator.frontier = pending)
    (visited : List (RoseTree α)) :
    ∃ last, last.isEnd = true ∧ Returns (visitRound advance) (iterator, visited)
      (some (last, visited ++ iterator.currentNode :: later)) := by
  induction visits generalizing iterator visited with
  | nil =>
      have step : iterator.increment push = some { iterator with isEnd := true } :=
        increment_last running (pending_eq_nil wellFormed frontier)
      apply Exists.intro { iterator with isEnd := true }
      apply And.intro rfl
      rw [returns_iff_of_again (visitRound_again advances running step visited)]
      exact .of_leave (if_pos rfl)
  | cons _ inductionHypothesis =>
      obtain ⟨next, step, nextWellFormed, nextRunning, current, nextFrontier⟩ :=
        increment_next pushes wellFormed running frontier
      obtain ⟨last, ended, returns⟩ := inductionHypothesis nextWellFormed nextRunning
        nextFrontier (visited ++ [iterator.currentNode])
      apply Exists.intro last
      apply And.intro ended
      rw [returns_iff_of_again (visitRound_again advances running step visited)]
      rwa [current, List.append_assoc, List.singleton_append] at returns

theorem walks_of_visits {join : List (RoseTree α) → List (RoseTree α) → List (RoseTree α)}
    (pushes : Pushes push join) (advances : Advances push advance) {root : RoseTree α}
    {later : List (RoseTree α)} (visits : RoseTree.Visits join root.children later) :
    Walks advance root (root :: later) := by
  obtain ⟨last, ended, returns⟩ := returns_visits pushes advances visits
    (construct_wellFormed root false) rfl (construct_frontier root false) []
  refine ⟨last, returns, ended, ?_⟩
  intro steps
  apply Function.iterate_fixed
  rw [Option.bind_some, advances, increment_end ended]
  rfl

/-- A stack walks in preorder. -/
theorem walks_preorder (advances : Advances NodeIterator.push advance) (root : RoseTree α) :
    Walks advance root root.preorder := by
  obtain ⟨later, visits⟩ := RoseTree.exists_visits RoseTree.rearranges_front root.children
  rw [RoseTree.preorder_eq, ← visits.eq_preorder]
  exact walks_of_visits pushes_stack advances visits

/-- A queue walks in level order. -/
theorem walks_levelOrder (advances : Advances NodeBreadthIterator.push advance)
    (root : RoseTree α) : Walks advance root root.levelOrder := by
  obtain ⟨later, visits⟩ := RoseTree.exists_visits RoseTree.rearranges_behind root.children
  have whole : RoseTree.Visits (fun kids rest => rest ++ kids) [root] (root :: later) :=
    .cons visits
  rw [← whole.eq_levelOrder]
  exact walks_of_visits pushes_queue advances visits

end Walk

theorem advances_pre (push : KidRange α → List (KidRange α) → List (KidRange α)) :
    Advances push (readBefore fun iterator =>
      (iterator.increment push).map fun after => (after, after)) := by
  intro iterator
  rw [readBefore, Option.map_map]
  rfl

theorem advances_post_before (push : KidRange α → List (KidRange α) → List (KidRange α)) :
    Advances push (readBefore fun iterator =>
      (iterator.increment push).map fun after => (iterator, after)) := by
  intro iterator
  rw [readBefore, Option.map_map]
  rfl

theorem advances_post_returned (push : KidRange α → List (KidRange α) → List (KidRange α)) :
    Advances push (readReturned fun iterator =>
      (iterator.increment push).map fun after => (iterator, after)) := by
  intro iterator
  rw [readReturned, Option.map_map]
  rfl

/-- The iterator that is returned at the end of the queue is at the same node as
the copy. -/
theorem breadth_postIncrement_eq (iterator : TreeIterator α) :
    ∃ returned, returned.currentNode = iterator.currentNode ∧
      NodeBreadthIterator.postIncrement iterator =
        (iterator.increment NodeBreadthIterator.push).map fun after => (returned, after) := by
  rw [NodeBreadthIterator.postIncrement]
  cases ended : iterator.isEnd with
  | true =>
      apply Exists.intro iterator
      rw [increment_end ended]
      exact ⟨rfl, rfl⟩
  | false =>
      cases pairs : iterator.pending with
      | nil =>
          apply Exists.intro { iterator with isEnd := true }
          rw [increment_last ended pairs, if_neg Bool.false_ne_true, if_pos List.isEmpty_nil, pairs]
          exact ⟨rfl, rfl⟩
      | cons => exact ⟨iterator, rfl, rfl⟩

/-- Both iterators visit every node once, one in preorder and the other in level
order, whichever operator increments them and whether the node is read before
the increment or from what the post-increment returns. -/
theorem iterators_walk (root : RoseTree α) :
    Walks (readBefore NodeIterator.preIncrement) root root.preorder ∧
      Walks (readBefore NodeIterator.postIncrement) root root.preorder ∧
      Walks (readReturned NodeIterator.postIncrement) root root.preorder ∧
      Walks (readBefore NodeBreadthIterator.preIncrement) root root.levelOrder ∧
      Walks (readBefore NodeBreadthIterator.postIncrement) root root.levelOrder ∧
      Walks (readReturned NodeBreadthIterator.postIncrement) root root.levelOrder ∧
      root.levelOrder.Perm root.preorder := by
  refine ⟨walks_preorder (advances_pre _) root, walks_preorder (advances_post_before _) root,
    walks_preorder (advances_post_returned _) root, walks_levelOrder (advances_pre _) root,
    walks_levelOrder ?_ root, walks_levelOrder ?_ root, RoseTree.levelOrder_perm_preorder root⟩
  · intro iterator
    obtain ⟨returned, -, operator⟩ := breadth_postIncrement_eq iterator
    rw [readBefore, operator, Option.map_map]
    rfl
  · intro iterator
    obtain ⟨returned, same, operator⟩ := breadth_postIncrement_eq iterator
    rw [readReturned, operator, Option.map_map, ← same]
    rfl

end Dift.Evio
