import Mathlib.Data.FinEnum
import Mathlib.Tactic

/-!
Owns evio string arrays: every string is followed by a null, and the end is
padded by one to four characters of value 4. The scanner that takes such data
apart looks ahead at the first 4, but a look-ahead that fails lets it go on, and
it never asks whether the padding begins right behind a null. `Overlooked` says
exactly what it accepts besides the format. Characters are bytes and positions
natural numbers; the count of characters left is an `int`.
-/

namespace Dift.Evio.Strings

/-- Printing characters, tab and newline. -/
def Good (c : UInt8) : Prop := (32 ≤ c ∧ c ≤ 126) ∨ c = 9 ∨ c = 10

instance (c : UInt8) : Decidable (Good c) := by
  unfold Good
  infer_instance

/-! ### Writing -/

/-- `int pads[] = {4,3,2,1}`. -/
def pads (residue : Nat) : Nat := 4 - residue

/-- `stringsToRawSize`. -/
def stringsToRawSize (strings : List (List UInt8)) : UInt32 :=
  if strings.isEmpty then 0
  else
    let dataLen := strings.foldl (fun dataLen s => dataLen + UInt32.ofNat (s.length + 1)) 0
    dataLen + UInt32.ofNat (pads (dataLen % 4).toNat)

/-- `stringsToRawBytes`: the vector is resized to the size computed first, and
the data is copied over what it holds. The size goes over an `int` in the source, so that
`resize` throws for one of 2^31 or more; here it is taken unsigned. -/
def stringsToRawBytes (strings : List (List UInt8)) (bytes : List UInt8) : List UInt8 :=
  if strings.isEmpty then []
  else
    let dataLen := (stringsToRawSize strings).toNat
    let strData := strings.foldl (fun strData s => strData ++ s ++ [0]) []
    let strData := strData ++ List.replicate (pads (strData.length % 4)) 4
    let resized := (bytes ++ List.replicate dataLen 0).take dataLen
    strData.take dataLen ++ resized.drop strData.length

/-! ### The scanner -/

/-- The value of an `int` to which a size is converted: it wraps at 2^32. -/
def toInt (size : Nat) : Int := (size : Int).bmod 4294967296

/-- The variables of the scan. -/
structure Scan where
  nullIndexList : List Nat
  nullCount : Nat
  goodChars : Nat
  badFormat : Bool
deriving DecidableEq, Repr

/-- The loop, from position `i` on, where `strData` goes on with the given
characters. -/
def scan (noEnding4 : Bool) : List UInt8 → Nat → Scan → Scan
  | [], _, state => state
  | c :: rest, i, state =>
      if c = 0 then
        let state := { state with
          nullCount := state.nullCount + 1
          nullIndexList := state.nullIndexList ++ [i] }
        if noEnding4 then { state with badFormat := false }
        else scan noEnding4 rest (i + 1) { state with goodChars := state.goodChars + 1 }
      else if (c < 32 ∨ c > 126) ∧ c ≠ 9 ∧ c ≠ 10 then
        if state.nullCount < 1 then { state with badFormat := true }
        else if c = 4 then
          let charsLeft := toInt rest.length
          if charsLeft > 3 then { state with badFormat := true }
          else if ∀ next ∈ rest.take charsLeft.toNat, next = 4 then
            { state with badFormat := false }
          else
            -- the jump to `pastOuterLoop` stays inside the loop
            scan noEnding4 rest (i + 1) { state with
              badFormat := true
              goodChars := state.goodChars + 1 }
        else { state with badFormat := true }
      else scan noEnding4 rest (i + 1) { state with goodChars := state.goodChars + 1 }

/-- The strings in front of the nulls, from a position on. -/
def split (strData : List UInt8) : Nat → List Nat → List (List UInt8)
  | _, [] => []
  | firstIndex, nullIndex :: later =>
      (strData.drop firstIndex).take (nullIndex - firstIndex) ::
        split strData (nullIndex + 1) later

/-- The scan of a whole text. -/
def scanAll (strData : List UInt8) : Scan :=
  scan (strData.getLast? ≠ some 4) strData 0 ⟨[], 0, 0, true⟩

/-- `stringBuilderToStrings`, for a text that is not empty. -/
def stringBuilderToStrings (strData : List UInt8) (onlyGoodChars : Bool) : List (List UInt8) :=
  let state := scanAll strData
  if state.badFormat then
    if onlyGoodChars then [strData.take state.goodChars] else [strData]
  else split strData 0 state.nullIndexList

/-- `unpackRawBytesToStrings` of a vector, from an offset on and up to a length;
`strData` is what the caller's vector holds. -/
def unpackRawBytesToStringsUpTo (bytes : List UInt8) (offset maxLength : UInt64)
    (strData : List (List UInt8)) : List (List UInt8) :=
  let length := toInt (UInt64.ofNat bytes.length - offset).toNat
  if bytes.isEmpty ∨ length < 4 then strData
  else
    let length := if length > maxLength.toNat then toInt maxLength.toNat else length
    stringBuilderToStrings ((bytes.drop offset.toNat).take length.toNat) true

/-- `unpackRawBytesToStrings` of a vector, from an offset on. -/
def unpackRawBytesToStrings (bytes : List UInt8) (offset : UInt64)
    (strData : List (List UInt8)) : List (List UInt8) :=
  unpackRawBytesToStringsUpTo bytes offset (UInt64.ofNat bytes.length) strData

/-! ### The format -/

/-- Every piece with its null. -/
def terminated (pieces : List (List UInt8)) : List UInt8 :=
  pieces.flatMap fun piece => piece ++ [0]

/-- At least one piece of good characters with its null, then one to four 4s. -/
structure Format (input : List UInt8) (pieces : List (List UInt8)) : Prop where
  nonempty : pieces ≠ []
  good : ∀ piece ∈ pieces, ∀ c ∈ piece, Good c
  padded : ∃ count, 1 ≤ count ∧ count ≤ 4 ∧
    input = terminated pieces ++ List.replicate count 4

theorem terminated_cons (piece : List UInt8) (later : List (List UInt8)) :
    terminated (piece :: later) = piece ++ 0 :: terminated later := by
  simp [terminated]

/-! ### What the scanner does -/

theorem toInt_of_lt {size : Nat} (small : size < 2 ^ 31) : toInt size = size := by
  have above : -((4294967296 : Nat) : Int) ≤ (size : Int) * 2 := by omega
  have below : (size : Int) * 2 < (4294967296 : Nat) := by omega
  exact Int.bmod_eq_of_le_mul_two above below

theorem good_iff {c : UInt8} : ¬ ((c < 32 ∨ c > 126) ∧ c ≠ 9 ∧ c ≠ 10) ↔ Good c := by
  unfold Good
  rw [not_and_or, not_or, not_and_or, not_not, not_not, gt_iff_lt, UInt8.not_lt, UInt8.not_lt]

theorem Good.ne_zero {c : UInt8} (good : Good c) : c ≠ 0 := by
  rintro rfl
  revert good
  decide

theorem not_good_four : ¬ Good 4 := by decide

section Steps

variable {rest : List UInt8} (i : Nat) (state : Scan)

theorem scan_null :
    scan false (0 :: rest) i state = scan false rest (i + 1)
      ⟨state.nullIndexList ++ [i], state.nullCount + 1, state.goodChars + 1, state.badFormat⟩ := by
  rw [scan, if_pos rfl]
  rfl

theorem scan_good {c : UInt8} (good : Good c) :
    scan false (c :: rest) i state =
      scan false rest (i + 1) { state with goodChars := state.goodChars + 1 } := by
  rw [scan, if_neg good.ne_zero, if_neg (good_iff.mpr good)]

theorem scan_four (seen : 0 < state.nullCount) :
    scan false (4 :: rest) i state =
      if toInt rest.length > 3 then { state with badFormat := true }
      else if ∀ next ∈ rest.take (toInt rest.length).toNat, next = 4 then
        { state with badFormat := false }
      else scan false rest (i + 1)
        { state with badFormat := true, goodChars := state.goodChars + 1 } := by
  rw [scan, if_neg (by decide), if_pos (by decide), if_neg (by omega), if_pos rfl]

theorem scan_four_unseen (unseen : state.nullCount = 0) :
    scan false (4 :: rest) i state = { state with badFormat := true } := by
  rw [scan, if_neg (by decide), if_pos (by decide), if_pos (by omega)]

theorem scan_bad {c : UInt8} (notNull : c ≠ 0) (bad : ¬ Good c) (notFour : c ≠ 4) :
    scan false (c :: rest) i state = { state with badFormat := true } := by
  rw [scan, if_neg notNull, if_pos (not_not.mp fun other => bad (good_iff.mp other)),
    if_neg notFour, ite_self]

end Steps

/-! ### Data in the format -/

/-- Where the nulls of some pieces stand. -/
def ends : Nat → List (List UInt8) → List Nat
  | _, [] => []
  | i, piece :: later => (i + piece.length) :: ends (i + piece.length + 1) later

theorem scan_piece {piece : List UInt8} (good : ∀ c ∈ piece, Good c) (tail : List UInt8) (i : Nat)
    (state : Scan) :
    scan false (piece ++ 0 :: tail) i state =
      scan false tail (i + piece.length + 1)
        ⟨state.nullIndexList ++ [i + piece.length], state.nullCount + 1,
          state.goodChars + piece.length + 1, state.badFormat⟩ := by
  induction piece generalizing i state with
  | nil => exact scan_null i state
  | cons c rest inductionHypothesis =>
      rw [List.forall_mem_cons] at good
      rw [List.cons_append, scan_good i state good.1, inductionHypothesis good.2,
        List.length_cons, show i + 1 + rest.length = i + (rest.length + 1) by ring,
        show state.goodChars + 1 + rest.length = state.goodChars + (rest.length + 1) by ring]

theorem scan_terminated {pieces : List (List UInt8)}
    (good : ∀ piece ∈ pieces, ∀ c ∈ piece, Good c) (tail : List UInt8) (i : Nat) (state : Scan) :
    scan false (terminated pieces ++ tail) i state =
      scan false tail (i + (terminated pieces).length)
        ⟨state.nullIndexList ++ ends i pieces, state.nullCount + pieces.length,
          state.goodChars + (terminated pieces).length, state.badFormat⟩ := by
  induction pieces generalizing i state with
  | nil => simp [terminated, ends]
  | cons piece later inductionHypothesis =>
      rw [List.forall_mem_cons] at good
      have size : (terminated (piece :: later)).length =
          piece.length + 1 + (terminated later).length := by
        rw [terminated_cons, List.length_append, List.length_cons]
        ring
      rw [size, terminated_cons, List.append_assoc, List.cons_append, scan_piece good.1,
        inductionHypothesis good.2, ends, List.append_assoc,
        List.singleton_append, List.length_cons]
      congr 1
      · ring
      · congr 1 <;> ring

/-- A text of one to four 4s, after a null, ends the scan well. -/
theorem scan_padding {count : Nat} (atLeast : 1 ≤ count) (few : count ≤ 4) (i : Nat) {state : Scan}
    (seen : 0 < state.nullCount) :
    scan false (List.replicate count 4) i state = { state with badFormat := false } := by
  rcases Nat.exists_eq_add_of_le' atLeast with ⟨more, rfl⟩
  have left : toInt (List.replicate more (4 : UInt8)).length = more := by
    rw [List.length_replicate]
    exact toInt_of_lt (by omega)
  rw [List.replicate_succ, scan_four i state seen, left, if_neg (by omega), if_pos]
  intro next member
  exact List.eq_of_mem_replicate (List.mem_of_mem_take member)

/-- The pieces lie between the nulls. -/
theorem split_ends {strData : List UInt8} {pieces : List (List UInt8)} {tail : List UInt8}
    {i : Nat} (held : strData.drop i = terminated pieces ++ tail) :
    split strData i (ends i pieces) = pieces := by
  induction pieces generalizing i with
  | nil => rfl
  | cons piece later inductionHypothesis =>
      have cut : strData.drop i = piece ++ 0 :: (terminated later ++ tail) := by
        rw [held, terminated_cons, List.append_assoc, List.cons_append]
      have rest : strData.drop (i + piece.length + 1) = terminated later ++ tail := by
        rw [Nat.add_assoc, ← List.drop_drop, cut, ← List.drop_drop, List.drop_left]
        rfl
      rw [ends, split, inductionHypothesis rest, cut, Nat.add_sub_cancel_left, List.take_left]

theorem Format.getLast? {input : List UInt8} {pieces : List (List UInt8)}
    (format : Format input pieces) : input.getLast? = some 4 := by
  rcases format.padded with ⟨count, atLeast, -, rfl⟩
  rcases Nat.exists_eq_add_of_le' atLeast with ⟨more, rfl⟩
  rw [List.replicate_succ', ← List.append_assoc, List.getLast?_concat]

/-- Data in the format is taken apart. -/
theorem Format.scanAll {input : List UInt8} {pieces : List (List UInt8)}
    (format : Format input pieces) :
    ∃ goodChars, scanAll input = ⟨ends 0 pieces, pieces.length, goodChars, false⟩ := by
  have last := format.getLast?
  rcases format.padded with ⟨count, atLeast, few, rfl⟩
  rw [Strings.scanAll, last]
  have seen : 0 < pieces.length := List.length_pos_iff.mpr format.nonempty
  simp only [ne_eq, not_true_eq_false, decide_false]
  rw [scan_terminated format.good, scan_padding atLeast few _ (by simpa using seen)]
  exact ⟨(terminated pieces).length, by simp⟩

theorem Format.stringBuilderToStrings {input : List UInt8} {pieces : List (List UInt8)}
    (format : Format input pieces) (onlyGoodChars : Bool) :
    stringBuilderToStrings input onlyGoodChars = pieces := by
  rcases format.scanAll with ⟨goodChars, scanned⟩
  rcases format.padded with ⟨count, -, -, isInput⟩
  rw [Strings.stringBuilderToStrings, scanned]
  exact split_ends (by rw [List.drop_zero, isInput])

/-! ### What the scanner accepts -/

/-- The input goes on with good characters, nulls and 4s up to some 4; this and
every 4 before it comes after a null, counting one seen earlier, and has at most
three characters behind it, as an `int` counts them; and as many characters as
this count says, behind the last of these 4s, are 4s as well. -/
def Accepts (seen : Prop) (input : List UInt8) : Prop :=
  ∃ before rest, input = before ++ 4 :: rest ∧
    (∀ c ∈ before, Good c ∨ c = 0 ∨ c = 4) ∧
    (∀ front behind, before ++ [4] = front ++ 4 :: behind →
      (seen ∨ 0 ∈ front) ∧ toInt (behind.length + rest.length) ≤ 3) ∧
    ∀ next ∈ rest.take (toInt rest.length).toNat, next = 4

/-- What holds of every place of a character in a list, by the first one. -/
theorem forall_place_cons {α : Type*} {mark first : α} {rest : List α}
    {P : List α → List α → Prop} :
    (∀ front behind, first :: rest = front ++ mark :: behind → P front behind) ↔
      (first = mark → P [] rest) ∧
        ∀ front behind, rest = front ++ mark :: behind → P (first :: front) behind := by
  constructor
  · intro holds
    refine ⟨fun same => ?_, fun front behind isRest => ?_⟩
    · exact holds [] rest (by rw [same, List.nil_append])
    · exact holds (first :: front) behind (by rw [isRest, List.cons_append])
  · intro both front behind same
    obtain ⟨here, later⟩ := both
    cases front with
    | nil =>
        rcases List.cons.inj same with ⟨isMark, rfl⟩
        exact here isMark
    | cons other front =>
        rcases List.cons.inj same with ⟨rfl, isRest⟩
        exact later front behind isRest

section Accepts

variable {seen : Prop} {rest : List UInt8}

theorem accepts_nil : ¬ Accepts seen [] := by
  intro accepts
  obtain ⟨before, rest, same, -⟩ := accepts
  simp at same

/-- A text character in front is passed over. -/
theorem accepts_cons_text {c : UInt8} (text : Good c ∨ c = 0) :
    Accepts seen (c :: rest) ↔ Accepts (seen ∨ c = 0) rest := by
  have notFour : c ≠ 4 := by
    rintro rfl
    rcases text with good | null
    · exact not_good_four good
    · cases null
  constructor
  · intro accepts
    obtain ⟨before, after, same, texts, fours, padding⟩ := accepts
    cases before with
    | nil => exact absurd (List.cons.inj same).1 notFour
    | cons first before =>
        rcases List.cons.inj same with ⟨rfl, rfl⟩
        rw [List.forall_mem_cons] at texts
        rw [List.cons_append, forall_place_cons] at fours
        refine ⟨before, after, rfl, texts.2, fun front behind place => ?_, padding⟩
        rcases fours.2 front behind place with ⟨null, few⟩
        rw [List.mem_cons, eq_comm, ← or_assoc] at null
        exact ⟨null, few⟩
  · intro accepts
    obtain ⟨before, after, rfl, texts, fours, padding⟩ := accepts
    refine ⟨c :: before, after, rfl, ?_, ?_, padding⟩
    · rw [List.forall_mem_cons]
      exact ⟨text.imp_right .inl, texts⟩
    · rw [List.cons_append, forall_place_cons]
      refine ⟨fun isFour => absurd isFour notFour, fun front behind place => ?_⟩
      rcases fours front behind place with ⟨null, few⟩
      rw [List.mem_cons, eq_comm, ← or_assoc]
      exact ⟨null, few⟩

/-- A 4 in front ends the scan well or is passed over. -/
theorem accepts_cons_four :
    Accepts seen (4 :: rest) ↔ seen ∧ toInt rest.length ≤ 3 ∧
      ((∀ next ∈ rest.take (toInt rest.length).toNat, next = 4) ∨ Accepts seen rest) := by
  constructor
  · intro accepts
    obtain ⟨before, after, same, texts, fours, padding⟩ := accepts
    cases before with
    | nil =>
        rcases List.cons.inj same with ⟨-, rfl⟩
        rcases fours [] [] rfl with ⟨null, few⟩
        simp only [List.not_mem_nil, or_false, List.length_nil, Nat.zero_add] at null few
        exact ⟨null, few, .inl padding⟩
    | cons first before =>
        rcases List.cons.inj same with ⟨rfl, rfl⟩
        rw [List.forall_mem_cons] at texts
        rw [List.cons_append, forall_place_cons] at fours
        rcases fours.1 rfl with ⟨null, few⟩
        simp only [List.not_mem_nil, or_false, List.length_append, List.length_cons,
          List.length_nil, Nat.zero_add] at null few
        rw [Nat.add_assoc, Nat.add_comm 1] at few
        have behind : toInt (before ++ 4 :: after).length ≤ 3 := by
          rwa [List.length_append, List.length_cons]
        refine ⟨null, behind, .inr ?_⟩
        refine ⟨before, after, rfl, texts.2, fun front behind place => ?_, padding⟩
        exact ⟨.inl null, (fours.2 front behind place).2⟩
  · intro either
    rcases either with ⟨null, few, padding | ⟨before, after, rfl, texts, fours, padding⟩⟩
    · refine ⟨[], rest, rfl, by simp, fun front behind place => ?_, padding⟩
      rcases List.append_eq_singleton_iff.mp place.symm with ⟨rfl, isFour⟩ | ⟨-, isNil⟩
      · rcases List.cons.inj isFour with ⟨-, rfl⟩
        exact ⟨.inl null, by simpa using few⟩
      · cases isNil
    · refine ⟨4 :: before, after, rfl, ?_, ?_, padding⟩
      · rw [List.forall_mem_cons]
        exact ⟨.inr (.inr rfl), texts⟩
      · rw [List.cons_append, forall_place_cons]
        refine ⟨fun _ => ⟨.inl null, ?_⟩, fun front behind place => ?_⟩
        · rw [List.length_append, List.length_cons] at few
          rw [List.length_append, List.length_singleton, Nat.add_assoc, Nat.add_comm 1]
          exact few
        · exact ⟨.inl null, (fours front behind place).2⟩

theorem accepts_cons_bad {c : UInt8} (notNull : c ≠ 0) (bad : ¬ Good c) (notFour : c ≠ 4) :
    ¬ Accepts seen (c :: rest) := by
  intro accepts
  obtain ⟨before, after, same, texts, -⟩ := accepts
  cases before with
  | nil => exact notFour (List.cons.inj same).1
  | cons first before =>
      rcases List.cons.inj same with ⟨rfl, -⟩
      rcases texts c List.mem_cons_self with good | null | four
      · exact bad good
      · exact notNull null
      · exact notFour four

end Accepts

/-- The scan ends well exactly where the input is accepted. -/
theorem scan_accepts_iff (input : List UInt8) (i : Nat) (state : Scan)
    (bad : state.badFormat = true) :
    (scan false input i state).badFormat = false ↔ Accepts (0 < state.nullCount) input := by
  induction input generalizing i state with
  | nil => simp [scan, bad, accepts_nil]
  | cons c rest inductionHypothesis =>
      by_cases null : c = 0
      · subst null
        rw [scan_null, inductionHypothesis, accepts_cons_text (.inr rfl)]
        · simp
        · exact bad
      · by_cases good : Good c
        · rw [scan_good i state good, inductionHypothesis, accepts_cons_text (.inl good)]
          · simp [null]
          · exact bad
        · by_cases four : c = 4
          · subst four
            rw [accepts_cons_four]
            by_cases seen : 0 < state.nullCount
            · rw [scan_four i state seen]
              split_ifs with many padding
              · simp [many]
              · exact iff_of_true rfl ⟨seen, not_lt.mp many, .inl padding⟩
              · rw [inductionHypothesis _ _ rfl]
                simp only [seen, not_lt.mp many, padding, false_or, true_and]
            · rw [scan_four_unseen i state (Nat.eq_zero_of_not_pos seen)]
              simp [seen]
          · rw [scan_bad i state null good four]
            simp [accepts_cons_bad null good four]

/-! ### Which inputs are handled as the format says -/

theorem scan_nullIndexList {input : List UInt8} {i : Nat} {state : Scan} {index : Nat}
    (member : index ∈ (scan false input i state).nullIndexList) :
    index ∈ state.nullIndexList ∨ index < i + input.length := by
  induction input generalizing i state with
  | nil => exact .inl member
  | cons c rest inductionHypothesis =>
      rw [List.length_cons]
      by_cases null : c = 0
      · subst null
        rw [scan_null] at member
        rcases inductionHypothesis member with before | inside
        · rcases List.mem_append.mp before with before | here
          · exact .inl before
          · rw [List.mem_singleton.mp here]
            exact .inr (by omega)
        · exact .inr (by omega)
      · by_cases good : Good c
        · rw [scan_good i state good] at member
          exact (inductionHypothesis member).imp_right fun inside => by omega
        · by_cases four : c = 4
          · subst four
            by_cases seen : 0 < state.nullCount
            · rw [scan_four i state seen] at member
              split_ifs at member
              · exact .inl member
              · exact .inl member
              · exact (inductionHypothesis member).imp_right fun inside => by omega
            · rw [scan_four_unseen i state (Nat.eq_zero_of_not_pos seen)] at member
              exact .inl member
          · rw [scan_bad i state null good four] at member
            exact .inl member

/-- Data in the format is taken apart, and other data is kept as one string, all
of it unless only good characters are wanted. -/
structure Conforms (input : List UInt8) : Prop where
  accepted : ∀ pieces, Format input pieces → ∀ onlyGoodChars,
    stringBuilderToStrings input onlyGoodChars = pieces
  rejected : (¬ ∃ pieces, Format input pieces) →
    (∀ onlyGoodChars, ∃ single, stringBuilderToStrings input onlyGoodChars = [single]) ∧
      stringBuilderToStrings input false = [input]

/-- What the scanner accepts although it is not in the format. -/
def Overlooked (input : List UInt8) : Prop :=
  (¬ ∃ pieces, Format input pieces) ∧ Accepts False input

theorem scanAll_accepts_iff {input : List UInt8} (last : input.getLast? = some 4) :
    (scanAll input).badFormat = false ↔ Accepts False input := by
  rw [scanAll, last]
  simp only [ne_eq, not_true_eq_false, decide_false]
  rw [scan_accepts_iff input 0 _ rfl]
  simp

/-- What is taken apart is never left whole. -/
theorem split_ne_whole {input : List UInt8} {indices : List Nat}
    (inside : ∀ index ∈ indices, index < input.length) : split input 0 indices ≠ [input] := by
  cases indices with
  | nil => simp [split]
  | cons index later =>
      intro whole
      rw [split, List.cons.injEq] at whole
      have size := congrArg List.length whole.1
      have below := inside index List.mem_cons_self
      rw [List.drop_zero, List.length_take] at size
      omega

/-- An input that ends in a 4 is handled as the format says unless it is
overlooked. -/
theorem stringBuilderToStrings_conforms_iff (input : List UInt8) (last : input.getLast? = some 4) :
    Conforms input ↔ ¬ Overlooked input := by
  constructor
  · intro conforms overlooked
    obtain ⟨outside, accepts⟩ := overlooked
    have whole := (conforms.rejected outside).2
    have scanned := (scanAll_accepts_iff last).mpr accepts
    simp only [stringBuilderToStrings, scanned, Bool.false_eq_true, if_false] at whole
    refine split_ne_whole (fun index member => ?_) whole
    rw [scanAll, last] at member
    simp only [ne_eq, not_true_eq_false, decide_false] at member
    rcases scan_nullIndexList member with before | inside
    · cases before
    · omega
  · intro found
    refine ⟨fun pieces format onlyGoodChars => ?_, fun outside => ?_⟩
    · exact format.stringBuilderToStrings onlyGoodChars
    · have bad : (scanAll input).badFormat = true := by
        by_contra accepted
        exact found ⟨outside, (scanAll_accepts_iff last).mp (by simpa using accepted)⟩
      refine ⟨fun onlyGoodChars => ?_, ?_⟩
      · cases onlyGoodChars
        · exact ⟨input, by simp [stringBuilderToStrings, bad]⟩
        · exact ⟨input.take (scanAll input).goodChars, by simp [stringBuilderToStrings, bad]⟩
      · simp [stringBuilderToStrings, bad]

/-- An `a` with its null and the padding. -/
theorem stringBuilderToStrings_conforms_iff_sample :
    Conforms [97, 0, 4] ↔ ¬ Overlooked [97, 0, 4] :=
  stringBuilderToStrings_conforms_iff [97, 0, 4] rfl

/-- A `b` between two 4s is overlooked. -/
theorem not_conforms_between : ¬ Conforms [97, 0, 4, 98, 4] := by
  intro conforms
  have result : stringBuilderToStrings [97, 0, 4, 98, 4] false = [[97]] := by decide +kernel
  by_cases inFormat : ∃ pieces, Format [97, 0, 4, 98, 4] pieces
  · rcases inFormat with ⟨pieces, format⟩
    have same := conforms.accepted pieces format false
    rw [result] at same
    rcases format.padded with ⟨count, atLeast, few, padded⟩
    rw [← same] at padded
    interval_cases count <;> exact absurd padded (by decide)
  · have whole := (conforms.rejected inFormat).2
    rw [result] at whole
    exact absurd whole (by decide)

theorem text_of_notMem {chars : List UInt8} (texts : ∀ c ∈ chars, Good c ∨ c = 0 ∨ c = 4)
    (absent : 4 ∉ chars) : ∀ c ∈ chars, Good c ∨ c = 0 := by
  intro c member
  rcases texts c member with good | null | four
  · exact .inl good
  · exact .inr null
  · rw [four] at member
    exact absurd member absent

theorem Accepts.exists_tail {input : List UInt8} (small : input.length < 2 ^ 31)
    (accepts : Accepts False input) :
    ∃ body tail, input = body ++ 4 :: tail ∧ tail.length ≤ 3 ∧ 0 ∈ body ∧
      (∀ c ∈ body, Good c ∨ c = 0) ∧ ∀ c ∈ tail, Good c ∨ c = 0 ∨ c = 4 := by
  rcases accepts with ⟨before, rest, rfl, texts, fours, padding⟩
  simp only [List.length_append, List.length_cons] at small
  have count := fours before [] rfl
  rw [List.length_nil, Nat.zero_add, toInt_of_lt (by omega)] at count
  rw [toInt_of_lt (by omega), Int.toNat_natCast, List.take_length] at padding
  by_cases early : 4 ∈ before
  · -- the body ends at the first 4
    rcases List.eq_append_cons_of_mem early with ⟨body, middle, rfl, first⟩
    rcases fours body (middle ++ [4]) (by simp) with ⟨null, few⟩
    simp only [List.length_append, List.length_cons, List.length_nil] at small few
    rw [toInt_of_lt (by omega)] at few
    refine ⟨body, middle ++ 4 :: rest, by simp, ?_, by simpa using null, ?_, ?_⟩
    · rw [List.length_append, List.length_cons]
      omega
    · exact text_of_notMem (fun c member => texts c (List.mem_append_left _ member)) first
    · intro c member
      rcases List.mem_append.mp member with inMiddle | behind
      · exact texts c (List.mem_append_right _ (List.mem_cons_of_mem _ inMiddle))
      · rcases List.mem_cons.mp behind with four | inRest
        · exact .inr (.inr four)
        · exact .inr (.inr (padding c inRest))
  · refine ⟨before, rest, rfl, by omega, by simpa using count.1, ?_, ?_⟩
    · exact text_of_notMem texts early
    · exact fun c member => .inr (.inr (padding c member))

theorem accepts_of_tail {body tail : List UInt8} (last : (4 :: tail).getLast? = some 4)
    (small : (body ++ 4 :: tail).length < 2 ^ 31) (few : tail.length ≤ 3) (null : 0 ∈ body)
    (text : ∀ c ∈ body, Good c ∨ c = 0) (texts : ∀ c ∈ tail, Good c ∨ c = 0 ∨ c = 4) :
    Accepts False (body ++ 4 :: tail) := by
  have notInBody : 4 ∉ body := by
    intro member
    rcases text 4 member with good | isNull
    · exact not_good_four good
    · cases isNull
  rw [List.getLast?_eq_some_iff] at last
  rcases last with ⟨init, ends⟩
  refine ⟨body ++ init, [], by rw [ends, List.append_assoc], ?_, ?_, by simp⟩
  · intro c member
    rcases List.mem_append.mp member with inBody | inInit
    · exact (text c inBody).imp_right .inl
    · have among : c ∈ 4 :: tail := by
        rw [ends]
        exact List.mem_append_left _ inInit
      rcases List.mem_cons.mp among with four | inTail
      · exact .inr (.inr four)
      · exact texts c inTail
  · -- every 4 stands behind the whole body
    intro front behind place
    rw [List.append_assoc, ← ends] at place
    have size := congrArg List.length place
    simp only [List.length_append, List.length_cons] at small size
    rcases List.append_eq_append_iff.mp place with ⟨more, rfl, -⟩ | ⟨more, rfl, isTail⟩
    · rw [List.length_append] at size
      rw [List.length_nil, Nat.add_zero, toInt_of_lt (by omega)]
      exact ⟨.inr (List.mem_append_left _ null), by omega⟩
    · cases more with
      | nil =>
          rw [List.append_nil] at null size
          rw [List.length_nil, Nat.add_zero, toInt_of_lt (by omega)]
          exact ⟨.inr null, by omega⟩
      | cons first more =>
          rcases List.cons.inj isTail with ⟨rfl, -⟩
          exact absurd (List.mem_append_right _ List.mem_cons_self) notInBody

/-- Inputs shorter than 2^31 characters are accepted when a text with a null is
followed by at most four characters that begin with a 4 and are text or 4s. The
count of characters left has no part in this. -/
theorem accepts_iff_tail {input : List UInt8} (last : input.getLast? = some 4)
    (small : input.length < 2 ^ 31) :
    Accepts False input ↔ ∃ body tail, input = body ++ 4 :: tail ∧ tail.length ≤ 3 ∧ 0 ∈ body ∧
      (∀ c ∈ body, Good c ∨ c = 0) ∧ ∀ c ∈ tail, Good c ∨ c = 0 ∨ c = 4 := by
  constructor
  · exact Accepts.exists_tail small
  · intro tailed
    obtain ⟨body, tail, rfl, few, null, text, texts⟩ := tailed
    rw [List.getLast?_append_of_ne_nil _ (List.cons_ne_nil _ _)] at last
    exact accepts_of_tail last small few null text texts

/-! ### The round trip -/

theorem foldl_size (strings : List (List UInt8)) (start : UInt32) :
    strings.foldl (fun dataLen s => dataLen + UInt32.ofNat (s.length + 1)) start =
      start + UInt32.ofNat (terminated strings).length := by
  induction strings generalizing start with
  | nil => simp [terminated]
  | cons first later inductionHypothesis =>
      rw [List.foldl_cons, inductionHypothesis, terminated_cons, List.length_append,
        List.length_cons, UInt32.add_assoc, ← UInt32.ofNat_add]
      congr 2
      ring

theorem foldl_data (strings : List (List UInt8)) (start : List UInt8) :
    strings.foldl (fun strData s => strData ++ s ++ [0]) start = start ++ terminated strings := by
  induction strings generalizing start with
  | nil => simp [terminated]
  | cons first later inductionHypothesis =>
      rw [List.foldl_cons, inductionHypothesis, terminated_cons]
      simp

/-- The number of bytes of a string array, without the limits of a word. -/
def rawSize (strings : List (List UInt8)) : Nat :=
  (terminated strings).length + pads ((terminated strings).length % 4)

theorem toNat_stringsToRawSize {strings : List (List UInt8)} (nonempty : strings ≠ [])
    (small : rawSize strings < 2 ^ 31) : (stringsToRawSize strings).toNat = rawSize strings := by
  unfold rawSize at *
  have size : (UInt32.ofNat (terminated strings).length).toNat = (terminated strings).length := by
    rw [UInt32.toNat_ofNat']
    omega
  simp only [stringsToRawSize, List.isEmpty_iff, nonempty, if_false, foldl_size, UInt32.zero_add]
  rw [UInt32.toNat_add, UInt32.toNat_mod, size]
  have pad : pads ((terminated strings).length % 4) ≤ 4 := Nat.sub_le _ _
  show ((terminated strings).length +
    (UInt32.ofNat (pads ((terminated strings).length % 4))).toNat) % 2 ^ 32 = _
  rw [UInt32.toNat_ofNat']
  omega

theorem stringsToRawBytes_eq {strings : List (List UInt8)} (nonempty : strings ≠ [])
    (small : rawSize strings < 2 ^ 31) (bytes : List UInt8) :
    stringsToRawBytes strings bytes = terminated strings ++
      List.replicate (pads ((terminated strings).length % 4)) 4 := by
  have size : (terminated strings ++
      List.replicate (pads ((terminated strings).length % 4)) (4 : UInt8)).length =
        rawSize strings := by
    rw [List.length_append, List.length_replicate, rawSize]
  simp only [stringsToRawBytes, List.isEmpty_iff, nonempty, if_false, foldl_data, List.nil_append]
  rw [toNat_stringsToRawSize nonempty small, size, List.take_of_length_le size.le,
    List.drop_eq_nil_of_le (by simp), List.append_nil]

/-- A string array is read back as it was written, from as many bytes as
computed, which are whole words in the format. -/
theorem unpackRawBytesToStrings_stringsToRawBytes (strings : List (List UInt8))
    (nonempty : strings ≠ []) (good : ∀ s ∈ strings, ∀ c ∈ s, Good c)
    (small : rawSize strings < 2 ^ 31) (bytes : List UInt8) (strData : List (List UInt8)) :
    unpackRawBytesToStrings (stringsToRawBytes strings bytes) 0 strData = strings ∧
      (stringsToRawBytes strings bytes).length = (stringsToRawSize strings).toNat ∧
      4 ∣ (stringsToRawBytes strings bytes).length ∧
      Format (stringsToRawBytes strings bytes) strings := by
  have written := stringsToRawBytes_eq nonempty small bytes
  have format : Format (stringsToRawBytes strings bytes) strings := by
    refine ⟨nonempty, good, pads ((terminated strings).length % 4), ?_, ?_, written⟩ <;>
      unfold pads <;> omega
  have length : (stringsToRawBytes strings bytes).length = rawSize strings := by
    rw [written, List.length_append, List.length_replicate, rawSize]
  have words : 4 ∣ rawSize strings := by
    unfold rawSize pads
    omega
  have atLeast : 4 ≤ rawSize strings := by
    rcases List.exists_cons_of_ne_nil nonempty with ⟨first, later, rfl⟩
    rw [rawSize, terminated_cons, List.length_append, List.length_cons]
    unfold pads
    omega
  refine ⟨?_, ?_, ?_, format⟩
  · have size : (UInt64.ofNat (rawSize strings) - 0).toNat = rawSize strings := by
      rw [UInt64.sub_zero, UInt64.toNat_ofNat']
      omega
    have present : ¬ ((stringsToRawBytes strings bytes).isEmpty = true ∨
        toInt (rawSize strings) < 4) := by
      rw [List.isEmpty_iff_length_eq_zero, length, toInt_of_lt small]
      omega
    have most : ¬ toInt (rawSize strings) > (UInt64.ofNat (rawSize strings)).toNat := by
      rw [toInt_of_lt small, UInt64.toNat_ofNat']
      omega
    simp only [unpackRawBytesToStrings, unpackRawBytesToStringsUpTo, length, size, if_neg present,
      if_neg most]
    rw [toInt_of_lt small, Int.toNat_natCast, ← length]
    simpa using format.stringBuilderToStrings true
  · rw [length, toNat_stringsToRawSize nonempty small]
  · rw [length]
    exact words

/-- A tab and an empty string. -/
theorem unpackRawBytesToStrings_stringsToRawBytes_sample :
    unpackRawBytesToStrings (stringsToRawBytes [[9], []] []) 0 [] = [[9], []] ∧
      (stringsToRawBytes [[9], []] []).length = (stringsToRawSize [[9], []]).toNat ∧
      4 ∣ (stringsToRawBytes [[9], []] []).length ∧
      Format (stringsToRawBytes [[9], []] []) [[9], []] :=
  unpackRawBytesToStrings_stringsToRawBytes [[9], []] (by decide) (by decide +kernel)
    (by decide) [] []

end Dift.Evio.Strings
