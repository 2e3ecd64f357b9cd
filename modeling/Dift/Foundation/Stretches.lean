import Mathlib.Tactic
import Mathlib.Data.List.DropRight

/-!
Owns stretches of a list: the last stretch on which something holds, and lists
in which some elements have nothing foreign between them. In a list without
repetitions the two notions meet: all chosen elements are in the stretch that
ends with the one just seen exactly when they have nothing foreign between them
and none is to come.
-/

namespace Dift.Foundation

variable {α : Type*}

/-- Between two chosen elements there are only inner ones. -/
def Together (Inner Chosen : α → Prop) (whole : List α) : Prop :=
  ∀ first one second other third, whole = first ++ one :: second ++ other :: third →
    Chosen one → Chosen other → ∀ between ∈ second, Inner between

/-- The last element with some property. -/
theorem exists_last {Chosen : α → Prop} {whole : List α} (anyChosen : ∃ one ∈ whole, Chosen one) :
    ∃ first one second, whole = first ++ one :: second ∧ Chosen one ∧
      ∀ other ∈ second, ¬ Chosen other := by
  induction whole with
  | nil =>
      rcases anyChosen with ⟨one, member, -⟩
      cases member
  | cons head rest inductionHypothesis =>
      by_cases later : ∃ one ∈ rest, Chosen one
      · rcases inductionHypothesis later with ⟨first, one, second, split, chosen, last⟩
        exact ⟨head :: first, one, second, by rw [split, List.cons_append], chosen, last⟩
      · rcases anyChosen with ⟨one, member, chosen⟩
        rcases List.mem_cons.mp member with rfl | inRest
        · exact ⟨[], one, rest, rfl, chosen, fun other inRest isChosen =>
            later ⟨other, inRest, isChosen⟩⟩
        · exact absurd ⟨one, inRest, chosen⟩ later

/-- The last stretch of inner elements. -/
def stretch (Inner : α → Prop) [DecidablePred Inner] (whole : List α) : List α :=
  whole.rtakeWhile fun one => decide (Inner one)

section Stretch

variable {Inner : α → Prop} [DecidablePred Inner]

theorem stretch_suffix (Inner : α → Prop) [DecidablePred Inner] (whole : List α) :
    stretch Inner whole <:+ whole :=
  List.rtakeWhile_suffix _ whole

theorem of_mem_stretch {whole : List α} {one : α} (member : one ∈ stretch Inner whole) :
    Inner one :=
  of_decide_eq_true (List.mem_rtakeWhile_imp (p := fun one => decide (Inner one)) member)

theorem stretch_append_of_inner {whole : List α} {last : α} (inner : Inner last) :
    stretch Inner (whole ++ [last]) = stretch Inner whole ++ [last] :=
  List.rtakeWhile_concat_pos _ _ _ (decide_eq_true inner)

theorem stretch_append_of_foreign {whole : List α} {last : α} (foreign : ¬ Inner last) :
    stretch Inner (whole ++ [last]) = [] :=
  List.rtakeWhile_concat_neg _ _ _ (by simpa using foreign)

/-- Everything in a suffix of inner elements is in the last stretch. -/
theorem mem_stretch_of_suffix {before suffix : List α} (all : ∀ one ∈ suffix, Inner one) {one : α}
    (member : one ∈ suffix) : one ∈ stretch Inner (before ++ suffix) := by
  induction suffix using List.reverseRecOn with
  | nil => cases member
  | append_singleton rest last inductionHypothesis =>
      rw [← List.append_assoc, stretch_append_of_inner (all last (by simp))]
      rcases List.mem_append.mp member with earlier | isLast
      · exact List.mem_append_left _
          (inductionHypothesis (fun other inRest => all other (by simp [inRest])) earlier)
      · exact List.mem_append_right _ isLast

end Stretch

/-- An element of a list without repetitions has one place. -/
theorem split_unique {first second left right : List α} {one : α}
    (nodup : (first ++ one :: second).Nodup)
    (same : first ++ one :: second = left ++ one :: right) : first = left ∧ second = right := by
  have apart := (List.nodup_cons.mp (List.nodup_middle.mp nodup)).1
  have unique := (List.append_cons_inj_of_notMem
    (fun inFirst => apart (List.mem_append_left _ inFirst))
    (fun inSecond => apart (List.mem_append_right _ inSecond))).mp same
  exact ⟨unique.1, unique.2.2⟩

/-- In a list without repetitions, what stands between two elements of a block
is in the block. -/
theorem mem_of_between {before block after first second third : List α} {one other : α}
    (nodup : (before ++ block ++ after).Nodup)
    (split : before ++ block ++ after = first ++ one :: second ++ other :: third)
    (oneIn : one ∈ block) (otherIn : other ∈ block) : ∀ between ∈ second, between ∈ block := by
  rcases List.append_of_mem oneIn with ⟨left, right, rfl⟩
  have atOne : (before ++ left) ++ one :: (right ++ after) =
      first ++ one :: (second ++ other :: third) := by
    simpa using split
  have nodupAtOne : ((before ++ left) ++ one :: (right ++ after)).Nodup := by
    simpa using nodup
  rcases split_unique nodupAtOne atOne with ⟨isFirst, isRest⟩
  have inRight : other ∈ right := by
    rcases List.mem_append.mp otherIn with inLeft | inRest
    · rw [isRest] at nodupAtOne
      have twice := (List.nodup_append.mp nodupAtOne).2.2 other
        (List.mem_append_right _ inLeft) other (by simp)
      exact absurd rfl twice
    · rcases List.mem_cons.mp inRest with isOne | inRight
      · rw [isRest, ← isOne] at nodupAtOne
        have fresh := (List.nodup_cons.mp nodupAtOne.of_append_right).1
        exact absurd (by simp) fresh
      · exact inRight
  rcases List.append_of_mem inRight with ⟨inner, rest, rfl⟩
  have nodupRest : (second ++ other :: third).Nodup := by
    rw [← isRest]
    exact (List.nodup_cons.mp nodupAtOne.of_append_right).2
  have isSecond := (split_unique nodupRest (by simpa using isRest.symm)).1
  intro between member
  rw [isSecond] at member
  simp [member]

/-- Elements that are all in one block of inner ones stand together. -/
theorem together_of_block {Inner Chosen : α → Prop} (before block after : List α)
    (nodup : (before ++ block ++ after).Nodup) (inner : ∀ one ∈ block, Inner one)
    (inBlock : ∀ one ∈ before ++ block ++ after, Chosen one → one ∈ block) :
    Together Inner Chosen (before ++ block ++ after) := by
  intro first one second other third split oneChosen otherChosen between member
  have oneIn := inBlock one (by simp [split]) oneChosen
  have otherIn := inBlock other (by simp [split]) otherChosen
  exact inner between (mem_of_between nodup split oneIn otherIn between member)

/-- All chosen elements are in the stretch of inner ones that ends with the one
just seen, exactly when they stand together and none is to come. -/
theorem all_in_stretch_iff {Inner Chosen : α → Prop} [DecidablePred Inner]
    (chosenInner : ∀ one, Chosen one → Inner one) {seen rest : List α} {last : α}
    (nodup : (seen ++ last :: rest).Nodup) (chosen : Chosen last) :
    (∀ one ∈ seen ++ last :: rest, Chosen one → one ∈ stretch Inner (seen ++ [last])) ↔
      Together Inner Chosen (seen ++ last :: rest) ∧ ∀ one ∈ rest, ¬ Chosen one := by
  have cut : seen ++ last :: rest = seen ++ [last] ++ rest := by simp
  rcases stretch_suffix Inner (seen ++ [last]) with ⟨before, isStretch⟩
  have inStretch : ∀ one ∈ stretch Inner (seen ++ [last]), one ∈ seen ++ [last] := by
    intro one member
    rw [← isStretch]
    exact List.mem_append_right _ member
  constructor
  · intro all
    constructor
    · have whole : seen ++ last :: rest = before ++ stretch Inner (seen ++ [last]) ++ rest := by
        rw [isStretch, cut]
      rw [whole] at nodup all ⊢
      exact together_of_block _ _ _ nodup (fun one => of_mem_stretch) all
    · intro one inRest oneChosen
      have early := inStretch one (all one (by simp [inRest]) oneChosen)
      rw [cut] at nodup
      exact (List.nodup_append.mp nodup).2.2 one early one inRest rfl
  · intro condition one member oneChosen
    obtain ⟨together, noneLater⟩ := condition
    rw [cut] at member
    have early : one ∈ seen ++ [last] := (List.mem_append.mp member).resolve_right
      fun inRest => noneLater one inRest oneChosen
    rcases List.mem_append.mp early with inSeen | isLast
    · rcases List.append_of_mem inSeen with ⟨first, second, rfl⟩
      have inner := together first one second last rest (by simp) oneChosen chosen
      have suffix : first ++ one :: second ++ [last] = first ++ (one :: second ++ [last]) := by
        simp
      rw [suffix]
      refine mem_stretch_of_suffix (fun other inSuffix => ?_) (by simp)
      rcases List.mem_append.mp inSuffix with inMiddle | isLast
      · rcases List.mem_cons.mp inMiddle with rfl | between
        · exact chosenInner _ oneChosen
        · exact inner other between
      · rw [List.mem_singleton.mp isLast]
        exact chosenInner _ chosen
    · rw [List.mem_singleton.mp isLast, stretch_append_of_inner (chosenInner _ chosen)]
      simp

end Dift.Foundation
