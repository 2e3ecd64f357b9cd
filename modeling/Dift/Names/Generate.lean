import Dift.Names.Printing

/-!
Owns the names of data files. The numbers of run, stream and split file are
tacked on or printed with the specifiers of the base name. Two split files never
get one name unless `sprintf` comes to a null before the specifier for the split
number. With three specifiers the stream id is printed even if there is one
stream, although it is not to be used then.
-/

namespace Dift.Names

open Dift.Foundation.Numerals

/-! ### Replacing a match -/

/-- Go to a match and replace it; `none` when the iterator is past the last. -/
def replaceMatch (text : List Char) (k : Nat) (inserted : Specifier → List Char) :
    Option (List Char) :=
  (regexMatches text)[k]?.map fun (position, specifier) =>
    replace text position specifier.text.length (inserted specifier)

/-- The tokens of the new text, when those inserted are plain. -/
theorem replaceMatch_tokens {text : List Char} {k : Nat} (plain : Plain (tokens text))
    (there : k < (regexMatches text).length) :
    ∃ before specifier after, tokens text = before ++ .spec specifier :: after ∧
      (specifiers before).length = k ∧
      ∀ inserted middle, Plain middle → inserted specifier = render middle →
        ∃ newText, replaceMatch text k inserted = some newText ∧
          tokens newText = before ++ (middle ++ after) := by
  cases isMatch : (regexMatches text)[k] with
  | mk position specifier =>
      have found : (regexMatches text)[k]? = some (position, specifier) := by
        rw [List.getElem?_eq_getElem there, isMatch]
      rcases matchesFrom_getElem? found with ⟨before, after, isTokens, counted, isPosition⟩
      refine ⟨before, specifier, after, isTokens, counted, fun inserted middle good same => ?_⟩
      have whole : text = render before ++ (specifier.text ++ render after) := by
        rw [← render_tokens text, isTokens, render_append, render_cons]
        rfl
      have front : text.take position = render before := by
        rw [whole, isPosition, Nat.zero_add, List.take_left]
      have back : text.drop (position + specifier.text.length) = render after := by
        rw [whole, isPosition, Nat.zero_add, List.drop_length_add_append, List.drop_left]
      rw [isTokens] at plain
      have around : Plain (before ++ (middle ++ after)) := by
        have plainBefore := plain.sub (List.subset_append_left _ _)
        have plainAfter := plain.sub fun token member =>
          List.mem_append_right before (List.mem_cons_of_mem (.spec specifier) member)
        exact plainBefore.append (good.append plainAfter)
      refine ⟨render (before ++ (middle ++ after)), ?_, around.tokens_render⟩
      rw [replaceMatch, found, Option.map_some]
      dsimp only
      rw [replace, front, back, same, render_append, render_append, List.append_assoc]

/-! ### The function -/

/-- `std::to_string`. -/
def toDecimal (number : UInt32) : List Char := Nat.toDigits 10 number.toNat

/-- `oneStream`, after a count of zero has been made one. -/
def oneStream (streamCount : UInt32) : Bool :=
  let streamCount := if streamCount < 1 then 1 else streamCount
  streamCount < 2

/-- `generateFileName`; `none` where its behaviour is undefined. The other
arguments are unsigned, so that the checks for negative ones change nothing. -/
def generateFileName (fileName : List Char) (specifierCount runNumber : UInt32) (split : UInt64)
    (splitNumber streamId streamCount : UInt32) : Option (List Char) :=
  let oneStream := oneStream streamCount
  let fileName := if fileName.length < 1 then ['f', 'i', 'l', 'e'] else fileName
  if split > 0 then
    if specifierCount < 1 then
      some (if oneStream then fileName ++ '.' :: toDecimal splitNumber
        else fileName ++ '.' :: toDecimal streamId ++ '.' :: toDecimal splitNumber)
    else if specifierCount = 1 then
      (sprintf fileName [runNumber]).map fun fileName =>
        if oneStream then fileName ++ '.' :: toDecimal splitNumber
        else fileName ++ '.' :: toDecimal streamId ++ '.' :: toDecimal splitNumber
    else if specifierCount = 2 then
      if !oneStream then
        (replaceMatch fileName 1 fun specifier => '%' :: 'd' :: '.' :: specifier.text).bind
          fun fileName => sprintf fileName [runNumber, streamId, splitNumber]
      else sprintf fileName [runNumber, splitNumber]
    else if specifierCount = 3 then sprintf fileName [runNumber, streamId, splitNumber]
    else some fileName
  else
    if specifierCount < 1 then
      some (if !oneStream then fileName ++ '.' :: toDecimal streamId else fileName)
    else if specifierCount = 1 then
      (sprintf fileName [runNumber]).map fun fileName =>
        if !oneStream then fileName ++ '.' :: toDecimal streamId else fileName
    else if specifierCount = 2 then
      (replaceMatch fileName 1 fun _ => []).bind fun fileName =>
        (sprintf fileName [runNumber]).map fun fileName =>
          if !oneStream then fileName ++ '.' :: toDecimal streamId else fileName
    else if specifierCount = 3 then
      (replaceMatch fileName 2 fun _ => []).bind fun fileName =>
        sprintf fileName [runNumber, streamId]
    else some fileName

theorem oneStream_iff {streamCount : UInt32} : oneStream streamCount = true ↔ streamCount ≤ 1 := by
  rw [oneStream, decide_eq_true_iff, UInt32.lt_iff_toNat_lt, UInt32.le_iff_toNat_le]
  split_ifs with zero
  · rw [UInt32.lt_iff_toNat_lt] at zero
    exact iff_of_true (by decide) (by omega)
  · exact Nat.lt_succ_iff

/-! ### Numbers that are tacked on -/

theorem toDecimal_injective : Function.Injective toDecimal := by
  intro first second same
  have values := congrArg (value 10) same
  rw [toDecimal, toDecimal, value_toDigits (by omega) (by omega),
    value_toDigits (by omega) (by omega)] at values
  exact UInt32.toNat_inj.mp values

theorem dot_notMem_toDigits (number : Nat) : '.' ∉ Nat.toDigits 10 number := by
  intro member
  exact absurd (Nat.isDigit_of_mem_toDigits (by omega) le_rfl member) (by decide)

/-- The text in front of the first dot and the text behind it are determined. -/
theorem append_dot_inj {first second firstRest secondRest : List Char} (plainFirst : '.' ∉ first)
    (plainSecond : '.' ∉ second)
    (same : first ++ '.' :: firstRest = second ++ '.' :: secondRest) :
    first = second ∧ firstRest = secondRest := by
  have front {part rest : List Char} (plain : '.' ∉ part) :
      (part ++ '.' :: rest).takeWhile (· ≠ '.') = part := by
    have kept : ∀ c ∈ part, decide (c ≠ '.') = true := by
      intro c member
      exact decide_eq_true (ne_of_mem_of_not_mem member plain)
    rw [List.takeWhile_append_of_pos kept, List.takeWhile_cons_of_neg (by simp), List.append_nil]
  have fronts : first = second := by
    rw [← front plainFirst, same, front plainSecond]
  rw [fronts] at same
  exact ⟨fronts, (List.cons.inj (List.append_cancel_left same)).2⟩

/-- Two numbers tacked on one behind the other are determined. -/
theorem tacked_inj {fileName : List Char} {streamId otherId splitNumber otherNumber : UInt32}
    (same : fileName ++ '.' :: toDecimal streamId ++ '.' :: toDecimal splitNumber =
      fileName ++ '.' :: toDecimal otherId ++ '.' :: toDecimal otherNumber) :
    streamId = otherId ∧ splitNumber = otherNumber := by
  rw [List.append_assoc, List.append_assoc, List.append_cancel_left_eq, List.cons_append,
    List.cons_append] at same
  rcases append_dot_inj (dot_notMem_toDigits _) (dot_notMem_toDigits _) (List.cons.inj same).2 with
    ⟨ids, numbers⟩
  exact ⟨toDecimal_injective ids, toDecimal_injective numbers⟩

/-! ### Numbers that are printed -/

theorem sprintf_isSome {text : List Char} (plain : Plain (tokens text)) {arguments : List UInt32}
    (enough : (specifiers (tokens text)).length ≤ arguments.length) :
    (sprintf text arguments).isSome := by
  have fewer : List.Sublist (specifiers (tokens (cString text))) (specifiers (tokens text)) := by
    rw [tokens_cString]
    exact (List.takeWhile_sublist _).filterMap _
  rw [sprintf, tokens_cString] at *
  exact plain.upToNull.fill_isSome (fewer.length_le.trans enough)

theorem upToNull_append (before rest : List Token) :
    upToNull (before ++ rest) =
      if ∀ token ∈ before, token ≠ .char null then before ++ upToNull rest
      else upToNull before := by
  split_ifs with whole
  · exact List.takeWhile_append_of_pos fun token member => by simpa using whole token member
  · rw [upToNull, List.takeWhile_append, if_neg]
    · rfl
    · intro all
      apply whole
      intro token member
      rw [← (List.takeWhile_sublist (· ≠ Token.char null)).eq_of_length all] at member
      simpa using List.all_eq_true.mp List.all_takeWhile token member

theorem specifiers_append (first second : List Token) :
    specifiers (first ++ second) = specifiers first ++ specifiers second :=
  List.filterMap_append

theorem specifiers_upToNull_length_le (all : List Token) :
    (specifiers (upToNull all)).length ≤ (specifiers all).length :=
  ((List.takeWhile_sublist _).filterMap _).length_le

/-- Tokens with fewer specifiers than are reached hold no null. -/
theorem ne_null_of_reached {before rest : List Token}
    (reached : (specifiers before).length < (specifiers (upToNull (before ++ rest))).length) :
    ∀ token ∈ before, token ≠ .char null := by
  by_contra inside
  have fewer := specifiers_upToNull_length_le before
  rw [upToNull_append, if_neg inside] at reached
  omega

/-- Whether some specifiers are reached does not depend on what follows them. -/
theorem le_length_upToNull_append {k : Nat} {before : List Token}
    (within : k ≤ (specifiers before).length) (rest : List Token) :
    k ≤ (specifiers (upToNull (before ++ rest))).length ↔
      k ≤ (specifiers (upToNull before)).length := by
  rw [upToNull_append]
  split_ifs with whole
  · have all : upToNull before = before := by
      have alone := upToNull_append before []
      rw [if_pos whole, List.append_nil] at alone
      exact alone.trans (List.append_nil before)
    rw [specifiers_append, List.length_append, all]
    exact iff_of_true (by omega) within
  · rfl

/-- A second number that is printed stands between texts without it. -/
theorem sprintf_second {text : List Char} (plain : Plain (tokens text)) {more : List UInt32}
    (enough : (regexMatches text).length ≤ more.length + 2)
    (reached : 2 ≤ (regexMatches (cString text)).length) (runNumber : UInt32) :
    ∃ left specifier right, ∀ number, sprintf text (runNumber :: number :: more) =
      some (left ++ (formatted specifier number ++ right)) := by
  cases isMatch : (regexMatches (cString text))[1] with
  | mk position specifier =>
      have found : (regexMatches (cString text))[1]? = some (position, specifier) := by
        rw [List.getElem?_eq_getElem reached, isMatch]
      rcases matchesFrom_getElem? found with ⟨before, after, isTokens, counted, -⟩
      have printed : Plain (tokens (cString text)) := by
        rw [tokens_cString]
        exact plain.upToNull
      have fewer := specifiers_upToNull_length_le (tokens text)
      rw [← tokens_cString, ← length_regexMatches text, isTokens, specifiers_append,
        List.length_append, counted] at fewer
      have last : (specifiers after).length ≤ more.length := by
        have next : (specifiers (.spec specifier :: after)).length =
          (specifiers after).length + 1 := rfl
        omega
      rw [isTokens] at printed
      have around : Plain (before ++ after) :=
        printed.sub fun token member =>
          (List.mem_append.mp member).elim (List.mem_append_left _)
            fun later => List.mem_append_right _ (List.mem_cons_of_mem _ later)
      have one : (specifiers before).length = [runNumber].length := counted
      rcases fill_around around one last with ⟨left, right, fills⟩
      refine ⟨left, specifier, right, fun number => ?_⟩
      have filled := fills [.spec specifier] [number] rfl
      rw [sprintf, isTokens]
      simpa [fill] using filled

/-- A second number that is not printed does not matter. -/
theorem sprintf_first {text : List Char} (unreached : (regexMatches (cString text)).length < 2)
    (runNumber : UInt32) (more : List UInt32) :
    sprintf text (runNumber :: more) = sprintf text [runNumber] := by
  rw [length_regexMatches] at unreached
  rw [sprintf, sprintf, fill_take, fill_take _ [runNumber]]
  congr 1
  generalize (specifiers (tokens (cString text))).length = count at unreached
  match count, unreached with
  | 0, _ => rfl
  | 1, _ => rfl

/-! ### Base names -/

theorem specifierCount_cases {specifierCount : UInt32} (few : specifierCount ≤ 3) :
    specifierCount = 0 ∨ specifierCount = 1 ∨ specifierCount = 2 ∨ specifierCount = 3 := by
  rw [UInt32.le_iff_toNat_le] at few
  simp only [← UInt32.toNat_inj]
  have three : (3 : UInt32).toNat = 3 := rfl
  have two : (2 : UInt32).toNat = 2 := rfl
  have one : (1 : UInt32).toNat = 1 := rfl
  have zero : (0 : UInt32).toNat = 0 := rfl
  omega

theorem BaseName.ne_nil {fileName : List Char} {specifierCount : Nat}
    (baseName : BaseName fileName specifierCount) (positive : 0 < specifierCount) : fileName ≠ [] := by
  rintro rfl
  exact absurd baseName.matched positive.ne

/-! ### Split files -/

/-- What `%d` prints without a width contains no dot. -/
theorem dot_notMem_formatted (number : UInt32) : '.' ∉ formatted ⟨[], 'd'⟩ number := by
  have signed : '.' ∉ sign ⟨[], 'd'⟩ number := by
    rw [sign]
    split_ifs <;> simp
  have isPlain : formatted ⟨[], 'd'⟩ number = sign ⟨[], 'd'⟩ number ++ digits ⟨[], 'd'⟩ number := by
    simp [formatted, value]
  rw [isPlain, List.mem_append, not_or, digits, if_pos rfl]
  exact ⟨signed, dot_notMem_toDigits _⟩

/-- What takes the place of the last of two specifiers. -/
def spliced (specifier : Specifier) : List Token :=
  [.spec ⟨[], 'd'⟩, .char '.', .spec specifier]

theorem render_spliced (specifier : Specifier) :
    render (spliced specifier) = '%' :: 'd' :: '.' :: specifier.text := by
  simp [spliced, render, Token.text, Specifier.text]

theorem spliced_plain {specifier : Specifier} (wellFormed : specifier.WellFormed) :
    Plain (spliced specifier) := by
  constructor
  · intro c member
    simp only [spliced, List.mem_cons, List.not_mem_nil, or_false, Token.char.injEq,
      reduceCtorEq, false_or] at member
    rw [member]
    decide
  · intro other member
    simp only [spliced, List.mem_cons, List.not_mem_nil, or_false, Token.spec.injEq,
      reduceCtorEq, false_or] at member
    rcases member with rfl | rfl
    · exact ⟨by simp, Or.inr rfl⟩
    · exact wellFormed

theorem ne_null_of_mem_spliced {specifier : Specifier} {token : Token}
    (member : token ∈ spliced specifier) : token ≠ .char null := by
  simp only [spliced, List.mem_cons, List.not_mem_nil, or_false] at member
  rcases member with rfl | rfl | rfl
  · exact Token.noConfusion
  · decide
  · exact Token.noConfusion

/-- With a specifier spliced in before the second match, the stream id, a dot and
the split number are printed between texts without them. -/
theorem sprintf_spliced {text : List Char} (plain : Plain (tokens text))
    (matched : (regexMatches text).length = 2)
    (reached : 2 ≤ (regexMatches (cString text)).length) (runNumber : UInt32) :
    ∃ newText left specifier right,
      replaceMatch text 1 (fun specifier => '%' :: 'd' :: '.' :: specifier.text) = some newText ∧
      ∀ streamId splitNumber, sprintf newText [runNumber, streamId, splitNumber] =
        some (left ++ (formatted ⟨[], 'd'⟩ streamId ++
          '.' :: (formatted specifier splitNumber ++ right))) := by
  rcases @replaceMatch_tokens text 1 plain (by omega) with
    ⟨before, specifier, after, isTokens, counted, replaced⟩
  have wellFormed := plain.spec specifier (by rw [isTokens]; simp)
  rcases replaced (fun specifier => '%' :: 'd' :: '.' :: specifier.text) (spliced specifier)
    (spliced_plain wellFormed) (render_spliced specifier).symm with ⟨newText, returns, isNew⟩
  -- nothing up to the second match is a null
  rw [length_regexMatches, tokens_cString, isTokens] at reached
  have whole := ne_null_of_reached (counted.trans_lt reached)
  have cut : tokens (cString newText) = before ++ (spliced specifier ++ upToNull after) := by
    rw [tokens_cString, isNew, upToNull_append, if_pos whole, upToNull_append,
      if_pos fun _ => ne_null_of_mem_spliced]
  have later : (specifiers (upToNull after)).length ≤ ([] : List UInt32).length := by
    have fewer := specifiers_upToNull_length_le after
    rw [length_regexMatches, isTokens, specifiers_append, List.length_append, counted] at matched
    have next : (specifiers (.spec specifier :: after)).length =
      (specifiers after).length + 1 := rfl
    rw [List.length_nil]
    omega
  rw [isTokens] at plain
  have around : Plain (before ++ upToNull after) := by
    have plainAfter := plain.sub fun token member =>
      List.mem_append_right before (List.mem_cons_of_mem (.spec specifier) member)
    exact (plain.sub (List.subset_append_left _ _)).append plainAfter.upToNull
  have one : (specifiers before).length = [runNumber].length := counted
  rcases fill_around around one later with ⟨left, right, fills⟩
  refine ⟨newText, left, specifier, right, returns, fun streamId splitNumber => ?_⟩
  have filled := fills (spliced specifier) [streamId, splitNumber] rfl
  have dot : '.' ≠ '%' := by decide
  rw [sprintf, cut]
  simpa [fill, spliced, dot] using filled

/-- Every split file has a name. No two of them share it, neither those of
several streams nor those of one. -/
structure KeepsApart (fileName : List Char) (specifierCount runNumber : UInt32) (split : UInt64)
    (streamCount : UInt32) : Prop where
  named : ∀ streamId splitNumber, (generateFileName fileName specifierCount runNumber split
    splitNumber streamId streamCount).isSome
  streams : 2 ≤ streamCount → Function.Injective fun numbers : UInt32 × UInt32 =>
    generateFileName fileName specifierCount runNumber split numbers.2 numbers.1 streamCount
  single : streamCount ≤ 1 → ∀ streamId, Function.Injective fun splitNumber =>
    generateFileName fileName specifierCount runNumber split splitNumber streamId streamCount

/-- Numbers that are tacked on keep the files apart. -/
theorem keepsApart_of_tacked {fileName front : List Char} {specifierCount runNumber : UInt32}
    {split : UInt64} {streamCount : UInt32}
    (tacked : ∀ streamId splitNumber, generateFileName fileName specifierCount runNumber split
      splitNumber streamId streamCount =
        some (if oneStream streamCount then front ++ '.' :: toDecimal splitNumber
          else front ++ '.' :: toDecimal streamId ++ '.' :: toDecimal splitNumber)) :
    KeepsApart fileName specifierCount runNumber split streamCount where
  named streamId splitNumber := by
    rw [tacked]
    rfl
  streams several := by
    have notOne : ¬ oneStream streamCount = true := by
      rw [oneStream_iff, UInt32.not_le]
      exact several
    rintro ⟨firstId, firstNumber⟩ ⟨secondId, secondNumber⟩ same
    simp only [tacked, if_neg notOne, Option.some_inj] at same
    rcases tacked_inj same with ⟨ids, numbers⟩
    rw [ids, numbers]
  single one streamId := by
    intro firstNumber secondNumber same
    simp only [tacked, if_pos (oneStream_iff.mpr one), Option.some_inj] at same
    exact toDecimal_injective (List.cons.inj (List.append_cancel_left same)).2

/-- Two specifiers that are reached keep the files apart. -/
theorem keepsApart_of_reached {fileName : List Char} (baseName : BaseName fileName 2)
    (reached : 2 ≤ (regexMatches (cString fileName)).length) (runNumber : UInt32) {split : UInt64}
    (splitting : 0 < split) (streamCount : UInt32) :
    KeepsApart fileName 2 runNumber split streamCount := by
  have nonempty := baseName.ne_nil (by decide)
  rcases @sprintf_second _ baseName.plain [] baseName.matched.le reached runNumber with
    ⟨left, specifier, right, prints⟩
  rcases sprintf_spliced baseName.plain baseName.matched reached runNumber with
    ⟨newText, front, second, back, returns, printsBoth⟩
  have names (streamId splitNumber : UInt32) :
      generateFileName fileName 2 runNumber split splitNumber streamId streamCount =
        some (if oneStream streamCount then left ++ (formatted specifier splitNumber ++ right)
          else front ++ (formatted ⟨[], 'd'⟩ streamId ++
            '.' :: (formatted second splitNumber ++ back))) := by
    cases one : oneStream streamCount with
    | true => simp [generateFileName, one, splitting, nonempty, prints]
    | false => simp [generateFileName, one, splitting, nonempty, returns, printsBoth]
  constructor
  · intro streamId splitNumber
    rw [names]
    rfl
  · intro several
    have notOne : ¬ oneStream streamCount = true := by
      rw [oneStream_iff, UInt32.not_le]
      exact several
    rintro ⟨firstId, firstNumber⟩ ⟨secondId, secondNumber⟩ same
    simp only [names, if_neg notOne, Option.some_inj, List.append_cancel_left_eq] at same
    rcases append_dot_inj (dot_notMem_formatted _) (dot_notMem_formatted _) same with ⟨ids, rest⟩
    rw [formatted_injective _ ids, formatted_injective _ (List.append_cancel_right rest)]
  · intro one streamId firstNumber secondNumber same
    simp only [names, if_pos (oneStream_iff.mpr one), Option.some_inj, List.append_cancel_left_eq,
      List.append_cancel_right_eq] at same
    exact formatted_injective specifier same

/-- Split files do not share a name, when `sprintf` comes to the second of two
specifiers. -/
theorem generateFileName_keepsApart {fileName : List Char} {specifierCount : UInt32}
    (baseName : BaseName fileName specifierCount.toNat) (few : specifierCount ≤ 2)
    (reached : specifierCount = 2 → 2 ≤ (regexMatches (cString fileName)).length)
    (runNumber : UInt32) {split : UInt64} (splitting : 0 < split) (streamCount : UInt32) :
    KeepsApart fileName specifierCount runNumber split streamCount := by
  have atMost : specifierCount ≤ 3 := UInt32.le_trans few (by decide)
  rcases specifierCount_cases atMost with rfl | rfl | rfl | rfl
  · apply keepsApart_of_tacked
    intro streamId splitNumber
    simp only [generateFileName, gt_iff_lt, splitting, if_true]
    rfl
  · have nonempty := baseName.ne_nil (by decide)
    have enough : (specifiers (tokens fileName)).length ≤ [runNumber].length := by
      rw [← length_regexMatches]
      exact baseName.matched.le
    rcases Option.isSome_iff_exists.mp (sprintf_isSome baseName.plain enough) with ⟨front, prints⟩
    apply @keepsApart_of_tacked _ front
    intro streamId splitNumber
    simp [generateFileName, splitting, nonempty, prints]
  · exact keepsApart_of_reached baseName (reached rfl) runNumber splitting streamCount
  · exact absurd few (by decide)

/-- The names of two streams with specifiers for run and split number. -/
theorem generateFileName_keepsApart_sample :
    KeepsApart ['a', '%', '0', '3', 'd', '.', '%', 'x'] 2 7 1 2 :=
  generateFileName_keepsApart ⟨by decide, by decide⟩ (by decide) (fun _ => by decide) 7
    (by decide) 2

/-- Behind a null the split number is not printed. -/
theorem not_injective_null :
    BaseName [null, '%', 'd', '%', 'd'] 2 ∧
      (∀ found ∈ regexMatches [null, '%', 'd', '%', 'd'], value 10 found.2.width < 300) ∧
      generateFileName [null, '%', 'd', '%', 'd'] 2 0 1 0 0 1 =
        generateFileName [null, '%', 'd', '%', 'd'] 2 0 1 1 0 1 ∧
      ¬ Function.Injective fun splitNumber =>
        generateFileName [null, '%', 'd', '%', 'd'] 2 0 1 splitNumber 0 1 := by
  have same : generateFileName [null, '%', 'd', '%', 'd'] 2 0 1 0 0 1 =
      generateFileName [null, '%', 'd', '%', 'd'] 2 0 1 1 0 1 := by
    decide
  refine ⟨⟨by decide, by decide⟩, by decide, same, fun injective => ?_⟩
  exact absurd (@injective 0 1 same) (by decide)

/-! ### Without a stream id -/

/-- A match that is removed takes its specifier away, and a later one leaves what
`sprintf` comes to of the first two as it is. -/
theorem replaceMatch_removed {text : List Char} {k : Nat} (plain : Plain (tokens text))
    (there : k < (regexMatches text).length) :
    ∃ newText, replaceMatch text k (fun _ => []) = some newText ∧ Plain (tokens newText) ∧
      (regexMatches newText).length + 1 = (regexMatches text).length ∧
      (2 ≤ k → (2 ≤ (regexMatches (cString newText)).length ↔
        2 ≤ (regexMatches (cString text)).length)) := by
  rcases replaceMatch_tokens plain there with
    ⟨before, specifier, after, isTokens, counted, replaced⟩
  have nothing : Plain [] := plain.sub (List.nil_subset _)
  rcases replaced (fun _ => []) [] nothing rfl with ⟨newText, returns, isNew⟩
  rw [List.nil_append] at isNew
  refine ⟨newText, returns, ?_, ?_, fun later => ?_⟩
  · rw [isNew]
    rw [isTokens] at plain
    exact plain.sub fun token member => (List.mem_append.mp member).elim (List.mem_append_left _)
      fun later => List.mem_append_right _ (List.mem_cons_of_mem _ later)
  · rw [length_regexMatches, length_regexMatches, isNew, isTokens, specifiers_append,
      specifiers_append, List.length_append, List.length_append]
    rfl
  · rw [length_regexMatches, length_regexMatches, tokens_cString, tokens_cString, isNew, isTokens,
      le_length_upToNull_append (later.trans counted.ge),
      le_length_upToNull_append (later.trans counted.ge)]

/-- The same name, whatever the stream id is. -/
def UsesNoStreamId (fileName : List Char) (specifierCount runNumber : UInt32) (split : UInt64)
    (splitNumber streamCount : UInt32) : Prop :=
  ∃ name, ∀ streamId, generateFileName fileName specifierCount runNumber split splitNumber streamId
    streamCount = some name

/-- A second number does not matter exactly when it is not printed. -/
theorem sprintf_second_iff {text : List Char} (plain : Plain (tokens text)) {more : List UInt32}
    (enough : (regexMatches text).length ≤ more.length + 2) (runNumber : UInt32) :
    (∃ name, ∀ number, sprintf text (runNumber :: number :: more) = some name) ↔
      (regexMatches (cString text)).length < 2 := by
  constructor
  · intro ignored
    obtain ⟨name, all⟩ := ignored
    by_contra reached
    rcases sprintf_second plain enough (by omega) runNumber with ⟨left, specifier, right, prints⟩
    have same := (prints 0).symm.trans ((all 0).trans ((all 1).symm.trans (prints 1)))
    rw [Option.some_inj, List.append_cancel_left_eq, List.append_cancel_right_eq] at same
    exact absurd (formatted_injective specifier same) (by decide)
  · intro unreached
    rw [length_regexMatches] at enough
    rcases Option.isSome_iff_exists.mp (@sprintf_isSome text plain (runNumber :: 0 :: more) enough)
      with ⟨name, prints⟩
    refine ⟨name, fun number => ?_⟩
    rw [sprintf_first unreached] at prints ⊢
    exact prints

end Dift.Names
