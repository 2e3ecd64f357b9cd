import Mathlib.Tactic

/-!
Owns the integer specifiers of file names, matches of `%(\d*)([xd])`: a text is
read as tokens, one for every match that is found from left to right and one for
every character between them. `countAndFixIntSpecifiers` is to put a zero in
front of widths that do not begin with one, but it replaces from the beginning
of the match instead of that of the width, so that a specifier it touches loses
its percent sign.
-/

namespace Dift.Names

/-! ### Matches -/

/-- A match of `%(\d*)([xd])`. -/
structure Specifier where
  width : List Char
  conversion : Char
deriving DecidableEq, Repr

def Specifier.text (specifier : Specifier) : List Char :=
  '%' :: (specifier.width ++ [specifier.conversion])

/-- The match that begins with the first character. Digits are taken as long as
there are any, since no conversion is one. -/
def matchHere : List Char → Option Specifier
  | [] => none
  | c :: tail =>
      if c = '%' then
        match tail.dropWhile Char.isDigit with
        | [] => none
        | next :: _ =>
            if next = 'x' ∨ next = 'd' then some ⟨tail.takeWhile Char.isDigit, next⟩ else none
      else none

/-- A character outside of matches, or a match. -/
inductive Token where
  | char (c : Char)
  | spec (specifier : Specifier)
deriving DecidableEq, Repr

def Token.text : Token → List Char
  | .char c => [c]
  | .spec specifier => specifier.text

/-- Read a text whose first characters, as many as given, belong to a match
already found. -/
def tokensFrom : Nat → List Char → List Token
  | _, [] => []
  | 0, c :: tail =>
      match matchHere (c :: tail) with
      | some specifier => .spec specifier :: tokensFrom (specifier.width.length + 1) tail
      | none => .char c :: tokensFrom 0 tail
  | skip + 1, _ :: tail => tokensFrom skip tail

def tokens (text : List Char) : List Token := tokensFrom 0 text

/-- The text of some tokens. -/
def render (tokens : List Token) : List Char := tokens.flatMap Token.text

/-- The matches with their positions, from a position on. -/
def matchesFrom : Nat → List Token → List (Nat × Specifier)
  | _, [] => []
  | position, .char _ :: rest => matchesFrom (position + 1) rest
  | position, .spec specifier :: rest =>
      (position, specifier) :: matchesFrom (position + specifier.text.length) rest

/-- What an iterator over the matches runs through. -/
def regexMatches (text : List Char) : List (Nat × Specifier) := matchesFrom 0 (tokens text)

/-- `text.replace(position, length, inserted)`. -/
def replace (text : List Char) (position length : Nat) (inserted : List Char) : List Char :=
  text.take position ++ inserted ++ text.drop (position + length)

/-- The width is there and does not begin with a zero. -/
def Specifier.Unfixed (specifier : Specifier) : Prop :=
  specifier.width.length > 0 ∧ specifier.width.head? ≠ some '0'

instance (specifier : Specifier) : Decidable specifier.Unfixed := by
  unfold Specifier.Unfixed
  infer_instance

/-- The loop over the specifiers, from the given one on; `none` when the iterator
is past the last match, or when `j`, an `int`, overflows. -/
def fixFrom : (remaining j : Nat) → List Char → Option (List Char)
  | 0, _, text => some text
  | remaining + 1, j, text =>
      match (regexMatches text)[j]? with
      | none => none
      | some (position, specifier) =>
          let text :=
            if specifier.Unfixed then
              replace text position specifier.width.length ('0' :: specifier.width)
            else text
          if j + 1 < 2 ^ 31 then fixFrom remaining (j + 1) text else none

/-- `countAndFixIntSpecifiers`: the count and the new text. -/
def countAndFixIntSpecifiers (text : List Char) : Option (UInt32 × List Char) :=
  let specifierCount := UInt32.ofNat (regexMatches text).length
  (fixFrom specifierCount.toNat 0 text).map (specifierCount, ·)

/-! ### Tokens -/

/-- What a match consists of. -/
structure Specifier.WellFormed (specifier : Specifier) : Prop where
  width : ∀ c ∈ specifier.width, c.isDigit = true
  conversion : specifier.conversion = 'x' ∨ specifier.conversion = 'd'

theorem matchHere_eq_some {text : List Char} {specifier : Specifier}
    (found : matchHere text = some specifier) :
    specifier.WellFormed ∧ ∃ rest, text = specifier.text ++ rest := by
  cases text with
  | nil => cases found
  | cons c tail =>
      rw [matchHere] at found
      split_ifs at found with percent
      have digits := List.all_eq_true.mp (@List.all_takeWhile _ Char.isDigit tail)
      split at found
      case h_1 => cases found
      case h_2 next rest behind =>
        split_ifs at found with converts
        cases found
        have whole : tail = tail.takeWhile Char.isDigit ++ next :: rest := by
          rw [← behind, List.takeWhile_append_dropWhile]
        refine ⟨⟨digits, converts⟩, rest, ?_⟩
        rw [percent, Specifier.text, List.cons_append, List.append_assoc]
        exact congrArg ('%' :: ·) whole

theorem matchHere_text {specifier : Specifier} (wellFormed : specifier.WellFormed)
    (rest : List Char) : matchHere (specifier.text ++ rest) = some specifier := by
  have notDigit : specifier.conversion.isDigit = false := by
    rcases wellFormed.conversion with isX | isD
    · rw [isX]
      rfl
    · rw [isD]
      rfl
  have front : (specifier.width ++ specifier.conversion :: rest).takeWhile Char.isDigit =
      specifier.width := by
    rw [List.takeWhile_append_of_pos wellFormed.width,
      List.takeWhile_cons_of_neg (by simp [notDigit]), List.append_nil]
  have back : (specifier.width ++ specifier.conversion :: rest).dropWhile Char.isDigit =
      specifier.conversion :: rest := by
    rw [List.dropWhile_append_of_pos wellFormed.width,
      List.dropWhile_cons_of_neg (by simp [notDigit])]
  have text : specifier.text ++ rest =
      '%' :: (specifier.width ++ specifier.conversion :: rest) := by
    simp [Specifier.text]
  rw [text, matchHere, if_pos rfl, front, back]
  simp [wellFormed.conversion]

theorem tokensFrom_drop (text : List Char) (skip : Nat) :
    tokensFrom skip text = tokens (text.drop skip) := by
  induction text generalizing skip with
  | nil => cases skip <;> rfl
  | cons c tail inductionHypothesis =>
      cases skip with
      | zero => rfl
      | succ skip => exact inductionHypothesis skip

theorem tokens_text {specifier : Specifier} (wellFormed : specifier.WellFormed)
    (rest : List Char) :
    tokens (specifier.text ++ rest) = .spec specifier :: tokens rest := by
  have found := matchHere_text wellFormed rest
  rw [Specifier.text, List.cons_append] at found ⊢
  rw [tokens, tokensFrom, found]
  dsimp only
  rw [tokensFrom_drop, List.drop_left' (by simp)]

theorem tokens_char {c : Char} {rest : List Char} (unmatched : matchHere (c :: rest) = none) :
    tokens (c :: rest) = .char c :: tokens rest := by
  rw [tokens, tokensFrom, unmatched]
  rfl

/-- A text is empty, begins with a match, or begins with a character that does
not begin one. -/
theorem text_induction {P : List Char → Prop} (nil : P [])
    (spec : ∀ (specifier : Specifier) rest, specifier.WellFormed → P rest →
      P (specifier.text ++ rest))
    (char : ∀ c rest, matchHere (c :: rest) = none → P rest → P (c :: rest))
    (text : List Char) : P text := by
  induction size : text.length using Nat.strong_induction_on generalizing text with
  | _ size inductionHypothesis =>
      cases text with
      | nil => exact nil
      | cons c tail =>
          rw [List.length_cons] at size
          cases found : matchHere (c :: tail) with
          | none => exact char c tail found (inductionHypothesis _ (by omega) tail rfl)
          | some specifier =>
              rcases matchHere_eq_some found with ⟨wellFormed, rest, isText⟩
              have shorter := congrArg List.length isText
              simp only [Specifier.text, List.length_cons, List.length_append] at shorter
              rw [isText]
              exact spec specifier rest wellFormed
                (inductionHypothesis rest.length (by omega) rest rfl)

@[simp] theorem tokens_nil : tokens [] = [] := rfl

@[simp] theorem render_nil : render [] = [] := rfl

theorem render_cons (token : Token) (rest : List Token) :
    render (token :: rest) = token.text ++ render rest := rfl

theorem render_append (first second : List Token) :
    render (first ++ second) = render first ++ render second := by
  simp [render]

/-- The tokens of a text are all of it. -/
theorem render_tokens (text : List Char) : render (tokens text) = text := by
  induction text using text_induction with
  | nil => rfl
  | spec specifier rest wellFormed inductionHypothesis =>
      rw [tokens_text wellFormed, render_cons, inductionHypothesis]
      rfl
  | char c rest unmatched inductionHypothesis =>
      rw [tokens_char unmatched, render_cons, inductionHypothesis]
      rfl

theorem wellFormed_of_mem {text : List Char} {specifier : Specifier}
    (member : .spec specifier ∈ tokens text) : specifier.WellFormed := by
  induction text using text_induction with
  | nil => cases member
  | spec first rest wellFormed inductionHypothesis =>
      rw [tokens_text wellFormed] at member
      rcases List.mem_cons.mp member with same | later
      · cases same
        exact wellFormed
      · exact inductionHypothesis later
  | char c rest unmatched inductionHypothesis =>
      rw [tokens_char unmatched] at member
      rcases List.mem_cons.mp member with same | later
      · cases same
      · exact inductionHypothesis later

/-- The specifiers among some tokens. -/
def specifiers (tokens : List Token) : List Specifier :=
  tokens.filterMap fun
    | .char _ => none
    | .spec specifier => some specifier

theorem matchesFrom_specifiers (position : Nat) (tokens : List Token) :
    (matchesFrom position tokens).map Prod.snd = specifiers tokens := by
  induction tokens generalizing position with
  | nil => rfl
  | cons token rest inductionHypothesis =>
      cases token with
      | char c => exact inductionHypothesis (position + 1)
      | spec specifier => exact congrArg (specifier :: ·) (inductionHypothesis _)

/-- The match the iterator is at after some steps stands behind as many others,
and where the iterator says. -/
theorem matchesFrom_getElem? {start k position : Nat} {tokens : List Token}
    {specifier : Specifier} (found : (matchesFrom start tokens)[k]? = some (position, specifier)) :
    ∃ before after, tokens = before ++ .spec specifier :: after ∧
      (specifiers before).length = k ∧ position = start + (render before).length := by
  induction tokens generalizing start k with
  | nil => cases found
  | cons token rest inductionHypothesis =>
      cases token with
      | char c =>
          rcases inductionHypothesis found with ⟨before, after, rfl, counted, rfl⟩
          refine ⟨.char c :: before, after, rfl, counted, ?_⟩
          rw [render_cons, List.length_append, Nat.add_assoc]
          rfl
      | spec first =>
          cases k with
          | zero =>
              cases found
              exact ⟨[], rest, rfl, rfl, rfl⟩
          | succ k =>
              rcases inductionHypothesis found with ⟨before, after, rfl, counted, rfl⟩
              refine ⟨.spec first :: before, after, rfl, congrArg (· + 1) counted, ?_⟩
              rw [render_cons, List.length_append, Nat.add_assoc]
              rfl

/-- A match stands where the iterator says. -/
theorem matchesFrom_mem {start position : Nat} {tokens : List Token} {specifier : Specifier}
    (member : (position, specifier) ∈ matchesFrom start tokens) :
    ∃ before after, tokens = before ++ .spec specifier :: after ∧
      position = start + (render before).length := by
  rcases List.getElem?_of_mem member with ⟨k, found⟩
  rcases matchesFrom_getElem? found with ⟨before, after, isTokens, -, isPosition⟩
  exact ⟨before, after, isTokens, isPosition⟩

theorem length_regexMatches (text : List Char) :
    (regexMatches text).length = (specifiers (tokens text)).length := by
  rw [← matchesFrom_specifiers 0, List.length_map]
  rfl

/-! ### What the function is to do -/

/-- A zero in front of a width that is there and does not begin with one. -/
def Token.fixed : Token → Token
  | .char c => .char c
  | .spec specifier =>
      if specifier.Unfixed then .spec ⟨'0' :: specifier.width, specifier.conversion⟩
      else .spec specifier

/-- A zero in front of the width of exactly the specifiers that need one. -/
def fixed (text : List Char) : List Char := render ((tokens text).map Token.fixed)

/-- The function counts the matches and fixes the text, and called again it does
neither more nor less. -/
def Fixes (text : List Char) : Prop :=
  ∃ count newText, countAndFixIntSpecifiers text = some (count, newText) ∧
    count.toNat = (regexMatches text).length ∧ newText = fixed text ∧
    countAndFixIntSpecifiers newText = some (count, newText)

/-! ### Percent signs -/

theorem count_percent_width {specifier : Specifier} (wellFormed : specifier.WellFormed) :
    specifier.width.count '%' = 0 := by
  rw [List.count_eq_zero]
  intro member
  exact absurd (wellFormed.width '%' member) (by decide)

/-- Fixing keeps every percent sign. -/
theorem count_percent_fixed (text : List Char) : (fixed text).count '%' = text.count '%' := by
  have each (token : Token) : token.fixed.text.count '%' = token.text.count '%' := by
    cases token with
    | char c => rfl
    | spec specifier =>
        rw [Token.fixed]
        split_ifs with unfixed
        · simp [Token.text, Specifier.text]
        · rfl
  have all (tokens : List Token) :
      (render (tokens.map Token.fixed)).count '%' = (render tokens).count '%' := by
    induction tokens with
    | nil => rfl
    | cons token rest inductionHypothesis =>
        rw [List.map_cons, render_cons, render_cons, List.count_append, List.count_append, each,
          inductionHypothesis]
  rw [fixed, all, render_tokens]

/-- The replacement for a specifier with a width takes its percent sign away. -/
theorem count_percent_replace {text : List Char} {position : Nat} {specifier : Specifier}
    (member : (position, specifier) ∈ regexMatches text) (wide : 0 < specifier.width.length) :
    (replace text position specifier.width.length ('0' :: specifier.width)).count '%' + 1 =
      text.count '%' := by
  rcases matchesFrom_mem member with ⟨before, after, isTokens, isPosition⟩
  have wellFormed : specifier.WellFormed := by
    apply @wellFormed_of_mem text
    rw [isTokens]
    exact List.mem_append_right _ List.mem_cons_self
  have cut : text = render before ++
      '%' :: (specifier.width ++ specifier.conversion :: render after) := by
    rw [← render_tokens text, isTokens, render_append, render_cons]
    simp [Token.text, Specifier.text]
  rcases Nat.exists_eq_add_of_le' wide with ⟨less, size⟩
  have front : text.take position = render before := by
    rw [cut, isPosition, Nat.zero_add, List.take_left]
  -- what is left of the match is the last digit of the width
  have back : text.drop (position + specifier.width.length) =
      specifier.width.drop less ++ specifier.conversion :: render after := by
    rw [cut, isPosition, Nat.zero_add, List.drop_length_add_append, size, List.drop_succ_cons,
      List.drop_append_of_le_length (by omega)]
  have noPercent := count_percent_width wellFormed
  have digits : (specifier.width.drop less).count '%' = 0 :=
    List.count_eq_zero.mpr fun among =>
      List.count_eq_zero.mp noPercent (List.mem_of_mem_drop among)
  rw [replace, front, back, cut]
  simp only [List.count_append, List.count_cons, noPercent, digits]
  simp
  omega

/-! ### The loop -/

/-- One round: it takes a percent sign away exactly where something is fixed. -/
theorem fixFrom_succ {remaining j : Nat} {text newText : List Char}
    (returns : fixFrom (remaining + 1) j text = some newText) :
    ∃ position specifier fixedText, (regexMatches text)[j]? = some (position, specifier) ∧
      j + 1 < 2 ^ 31 ∧ fixFrom remaining (j + 1) fixedText = some newText ∧
      (specifier.Unfixed → fixedText.count '%' + 1 = text.count '%') ∧
      (¬ specifier.Unfixed → fixedText = text) := by
  rw [fixFrom] at returns
  split at returns
  case h_1 => cases returns
  case h_2 position specifier found =>
    by_cases bound : j + 1 < 2 ^ 31
    · rw [if_pos bound] at returns
      refine ⟨position, specifier, _, found, bound, returns, fun unfixed => ?_,
        fun fixed => if_neg fixed⟩
      rw [if_pos unfixed]
      exact count_percent_replace (List.mem_of_getElem? found) unfixed.1
    · rw [if_neg bound] at returns
      cases returns

theorem fixFrom_count_le {remaining j : Nat} {text newText : List Char}
    (returns : fixFrom remaining j text = some newText) :
    newText.count '%' ≤ text.count '%' := by
  induction remaining generalizing j text with
  | zero =>
      cases returns
      exact le_rfl
  | succ remaining inductionHypothesis =>
      rcases fixFrom_succ returns with ⟨position, specifier, fixedText, -, -, rest, less, same⟩
      have later := inductionHypothesis rest
      by_cases unfixed : specifier.Unfixed
      · have one := less unfixed
        omega
      · rwa [same unfixed] at later

/-- A loop that comes to a specifier without a zero takes a percent sign away. -/
theorem fixFrom_count_lt {remaining j : Nat} {text newText : List Char}
    (returns : fixFrom remaining j text = some newText) {k position : Nat} {specifier : Specifier}
    (atLeast : j ≤ k) (below : k < j + remaining)
    (here : (regexMatches text)[k]? = some (position, specifier)) (unfixed : specifier.Unfixed) :
    newText.count '%' < text.count '%' := by
  induction remaining generalizing j with
  | zero => omega
  | succ remaining inductionHypothesis =>
      rcases fixFrom_succ returns with ⟨place, other, fixedText, found, -, rest, less, same⟩
      by_cases otherUnfixed : other.Unfixed
      · have one := less otherUnfixed
        have later := fixFrom_count_le rest
        omega
      · have later : j ≠ k := by
          rintro rfl
          rw [here] at found
          cases found
          exact otherUnfixed unfixed
        rw [same otherUnfixed] at rest
        exact inductionHypothesis rest (by omega) (by omega)

/-- The loop counts no further than an `int` can. -/
theorem fixFrom_lt {remaining j : Nat} {text newText : List Char} (positive : 0 < remaining)
    (returns : fixFrom remaining j text = some newText) : j + remaining < 2 ^ 31 := by
  induction remaining generalizing j text with
  | zero => omega
  | succ remaining inductionHypothesis =>
      rcases fixFrom_succ returns with ⟨position, specifier, fixedText, -, bound, rest, -, -⟩
      rcases Nat.eq_zero_or_pos remaining with rfl | more
      · exact bound
      · have later := inductionHypothesis more rest
        omega

theorem fixFrom_of_fixed {remaining j : Nat} {text : List Char}
    (within : j + remaining ≤ (regexMatches text).length)
    (countable : (regexMatches text).length < 2 ^ 31)
    (all : ∀ found ∈ regexMatches text, ¬ found.2.Unfixed) :
    fixFrom remaining j text = some text := by
  induction remaining generalizing j with
  | zero => rfl
  | succ remaining inductionHypothesis =>
      have inside : j < (regexMatches text).length := by omega
      rw [fixFrom, List.getElem?_eq_getElem inside]
      dsimp only
      rw [if_neg (all _ (List.getElem_mem inside)), if_pos (by omega)]
      exact inductionHypothesis (by omega)

/-- A text without unfixed specifiers is as it should be. -/
theorem fixed_eq_self {text : List Char}
    (all : ∀ found ∈ regexMatches text, ¬ found.2.Unfixed) : fixed text = text := by
  have same : (tokens text).map Token.fixed = tokens text := by
    refine (List.map_congr_left fun token member => ?_).trans (List.map_id _)
    cases token with
    | char c => rfl
    | spec specifier =>
        have among : specifier ∈ (regexMatches text).map Prod.snd := by
          rw [regexMatches, matchesFrom_specifiers, specifiers, List.mem_filterMap]
          exact ⟨_, member, rfl⟩
        rcases List.mem_map.mp among with ⟨found, isMatch, rfl⟩
        rw [Token.fixed, if_neg (all found isMatch)]
        rfl
  rw [fixed, same, render_tokens]

/-- The function does what it is to do exactly on the texts that need nothing
done, with as many specifiers as can be counted. -/
theorem countAndFixIntSpecifiers_fixes_iff (text : List Char) :
    Fixes text ↔ (regexMatches text).length < 2 ^ 31 ∧
      ∀ found ∈ regexMatches text, ¬ found.2.Unfixed := by
  constructor
  · intro fixes
    obtain ⟨count, newText, returns, counted, isFixed, -⟩ := fixes
    simp only [countAndFixIntSpecifiers, Option.map_eq_some_iff, Prod.mk.injEq] at returns
    rcases returns with ⟨result, loop, rfl, rfl⟩
    rw [counted] at loop
    constructor
    · rcases Nat.eq_zero_or_pos (regexMatches text).length with isZero | positive
      · rw [isZero]
        exact Nat.two_pow_pos 31
      · have bound := fixFrom_lt positive loop
        rwa [Nat.zero_add] at bound
    · rintro ⟨position, specifier⟩ member unfixed
      rcases List.getElem?_of_mem member with ⟨k, here⟩
      have below : k < (regexMatches text).length := (List.getElem?_eq_some_iff.mp here).1
      have less := fixFrom_count_lt loop (Nat.zero_le k) (by omega) here unfixed
      rw [isFixed, count_percent_fixed] at less
      exact lt_irrefl _ less
  · intro condition
    obtain ⟨countable, all⟩ := condition
    have counted :
        (UInt32.ofNat (regexMatches text).length).toNat = (regexMatches text).length := by
      rw [UInt32.toNat_ofNat', Nat.mod_eq_of_lt (by omega)]
    have returns : countAndFixIntSpecifiers text =
        some (UInt32.ofNat (regexMatches text).length, text) := by
      rw [countAndFixIntSpecifiers, counted, fixFrom_of_fixed (by omega) countable all]
      rfl
    exact ⟨_, text, returns, counted, (fixed_eq_self all).symm, returns⟩

/-- The width of `%3d` loses its percent sign. -/
theorem not_fixes_threeDigits :
    countAndFixIntSpecifiers ['%', '3', 'd'] = some (1, ['0', '3', '3', 'd']) ∧
      ¬ Fixes ['%', '3', 'd'] := by
  have returns : countAndFixIntSpecifiers ['%', '3', 'd'] = some (1, ['0', '3', '3', 'd']) := by
    decide
  refine ⟨returns, ?_⟩
  intro fixes
  obtain ⟨count, newText, other, -, isFixed, -⟩ := fixes
  rw [returns] at other
  cases other
  exact absurd isFixed (by decide)

end Dift.Names
