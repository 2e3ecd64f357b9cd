import Dift.Foundation.Loop

/-!
Owns loops that look for the first match in a text, replace it by its value, and
look again from the beginning. The text can be kept as a nest: what is behind
the last replacement is the rest of the value put in there, then that of the
value in which this match ended, and so on out to the rest of the original text.
Such a loop leaves exactly when no label stands in the nest more and more often.
-/

namespace Dift.Foundation.Nesting

variable {α κ ι : Type*}

/-! ### Matches -/

/-- The first position where there is a match, and the match. -/
def firstMatch (matchHere : List α → Option κ) : List α → Option (Nat × κ)
  | [] => none
  | c :: rest =>
      match matchHere (c :: rest) with
      | some found => some (0, found)
      | none => (firstMatch matchHere rest).map fun found => (found.1 + 1, found.2)

/-- What the loop looks for: a match depends on as much of the text as it is
long. -/
structure Matching (matchHere : List α → Option κ) (size : κ → Nat) : Prop where
  positive : ∀ found, 0 < size found
  within : ∀ text found, matchHere text = some found → size found ≤ text.length
  shorten : ∀ text found, matchHere text = some found →
    matchHere (text.take (size found)) = some found
  extend : ∀ text more found, matchHere text = some found → matchHere (text ++ more) = some found

variable {matchHere : List α → Option κ} {size : κ → Nat}

theorem firstMatch_eq_some {text : List α} {position : Nat} {found : κ}
    (first : firstMatch matchHere text = some (position, found)) :
    matchHere (text.drop position) = some found ∧
      ∀ earlier < position, matchHere (text.drop earlier) = none := by
  induction text generalizing position with
  | nil => cases first
  | cons c rest inductionHypothesis =>
      rw [firstMatch] at first
      split at first
      case h_1 other here =>
        cases first
        exact ⟨here, fun earlier before => absurd before (Nat.not_lt_zero _)⟩
      case h_2 nothing =>
        rcases Option.map_eq_some_iff.mp first with ⟨⟨later, other⟩, isLater, same⟩
        cases same
        rcases inductionHypothesis isLater with ⟨there, noneEarlier⟩
        refine ⟨there, fun earlier before => ?_⟩
        cases earlier with
        | zero => exact nothing
        | succ earlier => exact noneEarlier earlier (Nat.lt_of_succ_lt_succ before)

theorem firstMatch_eq_none {text : List α} (matching : Matching matchHere size) :
    firstMatch matchHere text = none ↔ ∀ position, matchHere (text.drop position) = none := by
  induction text with
  | nil =>
      apply iff_of_true rfl
      intro position
      rw [List.drop_nil, Option.eq_none_iff_forall_ne_some]
      intro found here
      have short := matching.within [] found here
      have long := matching.positive found
      rw [List.length_nil] at short
      omega
  | cons c rest inductionHypothesis =>
      rw [firstMatch]
      cases here : matchHere (c :: rest) with
      | some found =>
          apply iff_of_false nofun
          intro noneMatches
          have nothing := noneMatches 0
          rw [List.drop_zero, here] at nothing
          cases nothing
      | none =>
          rw [Option.map_eq_none_iff, inductionHypothesis]
          constructor
          · intro noneMatches position
            cases position with
            | zero => exact here
            | succ position => exact noneMatches position
          · exact fun noneMatches position => noneMatches (position + 1)

/-- What ends in a part without a match ends behind that part. -/
theorem firstMatch_end (matching : Matching matchHere size) {text : List α} {position : Nat}
    {found : κ} (first : firstMatch matchHere text = some (position, found)) :
    position + size found ≤ text.length ∧ firstMatch matchHere (text.take position) = none ∧
      ∀ count, firstMatch matchHere (text.take count) = none → count < position + size found := by
  rcases firstMatch_eq_some first with ⟨here, before⟩
  have within := matching.within _ _ here
  have positive := matching.positive found
  rw [List.length_drop] at within
  refine ⟨by omega, ?_, fun count nothing => ?_⟩
  · rw [firstMatch_eq_none matching]
    intro earlier
    rw [Option.eq_none_iff_forall_ne_some]
    intro other inside
    have least := matching.within _ _ inside
    have more := matching.positive other
    rw [List.length_drop, List.length_take] at least
    have longer := matching.extend _ (text.drop position) _ inside
    rw [← List.drop_append_of_le_length (by rw [List.length_take]; omega),
      List.take_append_drop, before earlier (by omega)] at longer
    cases longer
  · by_contra beyond
    have longer := (firstMatch_eq_none matching).mp nothing position
    have least := matching.shorten _ _ here
    have more := matching.extend _ ((text.take count).drop (position + size found)) _ least
    have whole : (text.drop position).take (size found) ++
        (text.take count).drop (position + size found) = (text.take count).drop position := by
      rw [← List.drop_drop, List.drop_take]
      have cut : (text.drop position).take (size found) =
          ((text.drop position).take (count - position)).take (size found) := by
        rw [List.take_take, Nat.min_eq_left (by omega)]
      rw [cut, List.take_append_drop]
    rw [whole, longer] at more
    cases more

/-! ### The loop -/

variable (matchHere size) (value : κ → List α) (label : κ → ι)

/-- One round on a text. -/
def round (text : List α) : Round (List α) (List α) :=
  match firstMatch matchHere text with
  | none => .leave text
  | some (position, found) =>
      .again (text.take position ++ value found ++ text.drop (position + size found))

/-- The text in front of the last replacement, which contains no match, what is
left of values that stand one in another, the innermost first, and what is left
of the original text. -/
structure Nest (α ι : Type*) where
  front : List α
  frames : List (ι × List α)
  outer : List α

/-- What is left of the values. -/
def inner (frames : List (ι × List α)) : List α := frames.flatMap Prod.snd

def Nest.text (nest : Nest α ι) : List α := nest.front ++ (inner nest.frames ++ nest.outer)

/-- A whole text, before the first round. -/
def Nest.whole (text : List α) : Nest α ι := ⟨[], [], text⟩

/-- Take letters away from the innermost values on. The value with the last of
them stays, even if nothing is left of it. -/
def consume : Nat → List (ι × List α) → List α → List (ι × List α) × List α
  | count, [], outer => ([], outer.drop count)
  | count, (name, rest) :: frames, outer =>
      if rest.length < count then consume (count - rest.length) frames outer
      else ((name, rest.drop count) :: frames, outer)

/-- One round on a nest. -/
def nestRound (nest : Nest α ι) : Round (Nest α ι) (List α) :=
  match firstMatch matchHere nest.text with
  | none => .leave nest.text
  | some (position, found) =>
      let left := consume (position + size found - nest.front.length) nest.frames nest.outer
      .again ⟨nest.text.take position, (label found, value found) :: left.1, left.2⟩

/-- The labels of the values that are open. -/
def Nest.labels (nest : Nest α ι) : List ι := nest.frames.map Prod.fst

variable {matchHere size value label}

/-! ### Nests and texts -/

theorem inner_cons (frame : ι × List α) (frames : List (ι × List α)) :
    inner (frame :: frames) = frame.2 ++ inner frames := rfl

theorem drop_append_of_length_le {first : List α} {count : Nat} (le : first.length ≤ count)
    (second : List α) : (first ++ second).drop count = second.drop (count - first.length) := by
  rw [List.drop_append, List.drop_eq_nil_of_le le, List.nil_append]

theorem consume_text (count : Nat) (frames : List (ι × List α)) (outer : List α) :
    inner (consume count frames outer).1 ++ (consume count frames outer).2 =
      (inner frames ++ outer).drop count := by
  induction frames generalizing count with
  | nil => rfl
  | cons frame frames inductionHypothesis =>
      rw [consume, inner_cons, List.append_assoc]
      split_ifs with beyond
      · rw [inductionHypothesis, drop_append_of_length_le beyond.le]
      · rw [inner_cons, List.append_assoc, List.drop_append_of_le_length (by omega)]

/-- A nest and its text. -/
structure Represents (matchHere : List α → Option κ) (nest : Nest α ι) (text : List α) : Prop where
  text : nest.text = text
  settled : firstMatch matchHere nest.front = none

/-- The rounds on a nest are those on its text. -/
theorem nestRound_match (matching : Matching matchHere size) {nest : Nest α ι} {text : List α}
    (represents : Represents matchHere nest text) :
    Round.Match (Represents matchHere) Eq (nestRound matchHere size value label nest)
      (round matchHere size value text) := by
  rw [nestRound, round, represents.text]
  cases first : firstMatch matchHere text with
  | none => exact .leave rfl
  | some found =>
      rcases firstMatch_end matching first with ⟨-, settled, least⟩
      have isFront : text.take nest.front.length = nest.front := by
        rw [← represents.text, Nest.text, List.take_left]
      have beyond := least nest.front.length (by rw [isFront, represents.settled])
      refine .again ⟨?_, settled⟩
      have rest := consume_text (found.1 + size found.2 - nest.front.length) nest.frames nest.outer
      have behind : text.drop (found.1 + size found.2) =
          (inner nest.frames ++ nest.outer).drop
            (found.1 + size found.2 - nest.front.length) := by
        rw [← represents.text, Nest.text, drop_append_of_length_le beyond.le]
      rw [Nest.text, inner_cons, List.append_assoc, rest, behind, List.append_assoc]

theorem returns_nestRound_iff (matching : Matching matchHere size) (text : List α) :
    (∃ result, Returns (nestRound matchHere size value label) (.whole text) result) ↔
      ∃ result, Returns (round matchHere size value) text result := by
  have start : Represents (ι := ι) matchHere (.whole text) text :=
    ⟨rfl, rfl⟩
  constructor
  · intro returned
    obtain ⟨result, returns⟩ := returned
    rcases returns.simulate _ _ (fun _ _ => nestRound_match matching) start with ⟨other, same, -⟩
    exact ⟨other, same⟩
  · intro returned
    obtain ⟨result, returns⟩ := returned
    rcases returns.simulate (fun text (nest : Nest α ι) => Represents matchHere nest text)
      (fun second first => first = second)
      (fun _ _ sim => (nestRound_match matching sim).symm) start with ⟨other, same, -⟩
    exact ⟨other, same⟩

/-! ### Termination -/

/-- What is left of the values counts more the further out they stand. -/
def weight (base depth : Nat) : List (ι × List α) → Nat
  | [] => 0
  | (_, rest) :: frames =>
      rest.length * base ^ (depth - (frames.length + 1)) + weight base depth frames

/-- The weight of a nest. -/
def Nest.weight (base depth : Nat) (nest : Nest α ι) : Nat :=
  Nesting.weight base depth nest.frames + nest.outer.length * base ^ depth

theorem sub_mul_add_le {count size : Nat} (positive : 0 < count) (least : count ≤ size)
    (power : Nat) : (size - count) * power + power ≤ size * power := by
  rw [← Nat.succ_mul]
  exact Nat.mul_le_mul_right power (by omega)

/-- The value with the last letter that is consumed loses at least that one. -/
theorem consume_weight (base depth : Nat) {count : Nat} (positive : 0 < count)
    {frames : List (ι × List α)} {outer : List α}
    (enough : count ≤ (inner frames ++ outer).length) :
    weight base depth (consume count frames outer).1 +
        (consume count frames outer).2.length * base ^ depth +
        base ^ (depth - (consume count frames outer).1.length) ≤
      weight base depth frames + outer.length * base ^ depth := by
  induction frames generalizing count with
  | nil =>
      have less := sub_mul_add_le positive (by simpa [inner] using enough : count ≤ outer.length)
        (base ^ depth)
      simpa [consume, weight] using less
  | cons frame frames inductionHypothesis =>
      rw [consume, weight]
      split_ifs with beyond
      · rw [inner_cons, List.append_assoc, List.length_append] at enough
        have later := @inductionHypothesis (count - frame.2.length) (by omega) (by omega)
        omega
      · have less := sub_mul_add_le positive (Nat.le_of_not_lt beyond)
          (base ^ (depth - (frames.length + 1)))
        rw [weight, List.length_drop, List.length_cons]
        dsimp only
        omega

/-- A round makes the weight less when there are not too many values in the nest. -/
theorem weight_lt (matching : Matching matchHere size) {longest depth : Nat}
    (bounded : ∀ found, (value found).length ≤ longest) {nest next : Nest α ι}
    (settled : firstMatch matchHere nest.front = none)
    (step : nestRound matchHere size value label nest = .again next)
    (shallow : next.frames.length ≤ depth) :
    next.weight (longest + 1) depth < nest.weight (longest + 1) depth := by
  rw [nestRound] at step
  split at step
  case h_1 => cases step
  case h_2 position found first =>
    cases step
    rcases firstMatch_end matching first with ⟨within, -, least⟩
    have isFront : nest.text.take nest.front.length = nest.front := by
      rw [Nest.text, List.take_left]
    have beyond := least nest.front.length (by rw [isFront, settled])
    have enough : position + size found - nest.front.length ≤
        (inner nest.frames ++ nest.outer).length := by
      rw [Nest.text, List.length_append] at within
      omega
    have less := @consume_weight _ _ (longest + 1) depth _ (Nat.sub_pos_of_lt beyond) _ _ enough
    dsimp only at shallow ⊢
    rw [Nest.weight, Nest.weight, weight]
    dsimp only
    generalize consume (position + size found - nest.front.length) nest.frames nest.outer = left
      at less shallow ⊢
    rw [List.length_cons] at shallow
    have short := bounded found
    have power : (longest + 1) ^ (depth - left.1.length) =
        (longest + 1) * (longest + 1) ^ (depth - (left.1.length + 1)) := by
      rw [← Nat.pow_succ', Nat.succ_eq_add_one]
      congr 1
      omega
    have fits : (value found).length * (longest + 1) ^ (depth - (left.1.length + 1)) <
        (longest + 1) ^ (depth - left.1.length) := by
      rw [power]
      exact Nat.mul_lt_mul_of_pos_right (by omega) (Nat.pow_pos (by omega))
    omega

/-! ### Labels -/

/-- All values of which something is left have labels among the given, and so
have all but the innermost. -/
structure Known (matchHere : List α → Option κ) (names : List ι) (nest : Nest α ι) : Prop where
  settled : firstMatch matchHere nest.front = none
  filled : ∀ frame ∈ nest.frames, frame.2 ≠ [] → frame.1 ∈ names
  below : ∀ frame ∈ nest.frames.tail, frame.1 ∈ names

theorem consume_known {names : List ι} {count : Nat} (positive : 0 < count)
    {frames : List (ι × List α)} (outer : List α)
    (filled : ∀ frame ∈ frames, frame.2 ≠ [] → frame.1 ∈ names)
    (below : ∀ frame ∈ frames.tail, frame.1 ∈ names) :
    ∀ frame ∈ (consume count frames outer).1, frame.1 ∈ names := by
  induction frames generalizing count with
  | nil => exact fun frame member => absurd member List.not_mem_nil
  | cons first frames inductionHypothesis =>
      rw [consume]
      split_ifs with beyond
      · refine inductionHypothesis (by omega) ?_ ?_
        · exact fun frame member => filled frame (List.mem_cons_of_mem _ member)
        · exact fun frame member => below frame (List.mem_of_mem_tail member)
      · intro frame member
        rcases List.mem_cons.mp member with rfl | later
        · apply filled first List.mem_cons_self
          intro empty
          rw [empty, List.length_nil] at beyond
          omega
        · exact below frame later

theorem Known.again (matching : Matching matchHere size) {names : List ι}
    (labelled : ∀ found, value found ≠ [] → label found ∈ names) {nest next : Nest α ι}
    (known : Known matchHere names nest)
    (step : nestRound matchHere size value label nest = .again next) :
    Known matchHere names next := by
  rw [nestRound] at step
  split at step
  case h_1 => cases step
  case h_2 position found first =>
    cases step
    rcases firstMatch_end matching first with ⟨-, settled, least⟩
    have isFront : nest.text.take nest.front.length = nest.front := by
      rw [Nest.text, List.take_left]
    have beyond := least nest.front.length (by rw [isFront, known.settled])
    have kept := consume_known (Nat.sub_pos_of_lt beyond) nest.outer known.filled known.below
    refine ⟨settled, fun frame member filled => ?_, kept⟩
    rcases List.mem_cons.mp member with rfl | later
    · exact labelled found filled
    · exact kept frame later

/-- A list of some labels is not longer than they may stand in it. -/
theorem length_le_sum [BEq ι] [LawfulBEq ι] (bounds : ι → Nat) {names all : List ι}
    (within : ∀ name ∈ all, name ∈ names) (often : ∀ name, all.count name ≤ bounds name) :
    all.length ≤ (names.map bounds).sum := by
  induction names generalizing all with
  | nil =>
      rw [List.eq_nil_iff_forall_not_mem.mpr fun name member =>
        List.not_mem_nil (within name member)]
      exact Nat.zero_le _
  | cons name names inductionHypothesis =>
      have rest := @inductionHypothesis (all.filter (· != name))
        (fun other member => by
          rcases List.mem_filter.mp member with ⟨isThere, differs⟩
          exact (List.mem_cons.mp (within other isThere)).resolve_left (by simpa using differs))
        (fun other => (List.filter_sublist.count_le other).trans (often other))
      have here := often name
      have split : all.length = all.count name + (all.filter (· != name)).length := by
        rw [List.length_eq_countP_add_countP (· == name), ← List.countP_eq_length_filter,
          List.count]
        simp [bne]
      rw [List.map_cons, List.sum_cons, split]
      exact Nat.add_le_add here rest

/-! ### When the loop leaves -/

theorem length_consume_le (count : Nat) (frames : List (ι × List α)) (outer : List α) :
    (consume count frames outer).1.length ≤ frames.length := by
  induction frames generalizing count with
  | nil => exact le_rfl
  | cons frame frames inductionHypothesis =>
      rw [consume]
      split_ifs
      · exact (inductionHypothesis _).trans (Nat.le_succ _)
      · exact le_rfl

/-- As many values are open as there have been rounds, at most. -/
theorem length_frames_le {fuel : Nat} {nest later : Nest α ι} {result : List α}
    (done : iterate (nestRound matchHere size value label) fuel nest = some result)
    (reaches : Reaches (nestRound matchHere size value label) nest later) :
    later.frames.length ≤ nest.frames.length + fuel := by
  induction fuel generalizing nest with
  | zero => cases done
  | succ fuel inductionHypothesis =>
      rcases reaches.cases_head with rfl | ⟨next, step, rest⟩
      · exact Nat.le_add_right _ _
      · rw [iterate_succ_of_again step] at done
        have later := inductionHypothesis done rest
        have one : next.frames.length ≤ nest.frames.length + 1 := by
          rw [nestRound] at step
          split at step
          case h_1 => cases step
          case h_2 =>
            cases step
            exact Nat.succ_le_succ (length_consume_le _ _ _)
        omega

/-- The loop leaves exactly when there is a bound for every label on how often it
stands in the nest. -/
theorem exists_returns_iff [BEq ι] [LawfulBEq ι] (matching : Matching matchHere size)
    {longest : Nat} (bounded : ∀ found, (value found).length ≤ longest) {names : List ι}
    (labelled : ∀ found, value found ≠ [] → label found ∈ names) (text : List α) :
    (∃ result, Returns (round matchHere size value) text result) ↔
      ∀ name, ∃ bound, ∀ nest,
        Reaches (nestRound matchHere size value label) (.whole text) nest →
          nest.labels.count name ≤ bound := by
  rw [← @returns_nestRound_iff _ _ ι _ _ value label matching]
  constructor
  · intro returned name
    obtain ⟨result, fuel, done⟩ := returned
    refine ⟨fuel, fun nest reaches => ?_⟩
    have shallow := length_frames_le done reaches
    rw [Nest.whole, List.length_nil, Nat.zero_add] at shallow
    refine List.count_le_length.trans ?_
    rwa [Nest.labels, List.length_map]
  · intro often
    choose bounds isBound using often
    have start : Known matchHere names (Nest.whole text) := ⟨rfl, nofun, nofun⟩
    refine exists_returns (fun nest => Known matchHere names nest ∧
      Reaches (nestRound matchHere size value label) (.whole text) nest)
      (Nest.weight (longest + 1) ((names.map bounds).sum + 1)) ?_
      ⟨start, Relation.ReflTransGen.refl⟩
    intro before after invariant step
    obtain ⟨known, reaches⟩ := invariant
    have knownLater := known.again matching labelled step
    have reachesLater := Relation.ReflTransGen.tail reaches step
    refine ⟨⟨knownLater, reachesLater⟩, weight_lt matching bounded known.settled step ?_⟩
    have below := @length_le_sum ι _ _ bounds names (after.labels.tail)
      (fun name member => by
        rw [Nest.labels, ← List.map_tail] at member
        rcases List.mem_map.mp member with ⟨frame, isBelow, rfl⟩
        exact knownLater.below frame isBelow)
      (fun name => ((List.tail_sublist _).count_le name).trans (isBound name after reachesLater))
    rw [List.length_tail, Nest.labels, List.length_map] at below
    omega

end Dift.Foundation.Nesting
