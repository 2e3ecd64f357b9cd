import Dift.Foundation.Numerals
import Dift.Names.Specifiers

/-!
Owns `sprintf` for formats with integer specifiers and unsigned arguments. What
is printed for one specifier determines the number, whatever the width and the
padding. A text without other percent signs is read as the tokens it is put
together from, up to its first null.
-/

namespace Dift.Names

open Dift.Foundation.Numerals

/-! ### Printing one number -/

/-- The sign `%d` prints, which takes the argument as an `int`. -/
def sign (specifier : Specifier) (number : UInt32) : List Char :=
  if specifier.conversion = 'd' ∧ 2 ^ 31 ≤ number.toNat then ['-'] else []

/-- The digits `%d` or `%x` prints. -/
def digits (specifier : Specifier) (number : UInt32) : List Char :=
  if specifier.conversion = 'd' then
    Nat.toDigits 10 (if number.toNat < 2 ^ 31 then number.toNat else 2 ^ 32 - number.toNat)
  else Nat.toDigits 16 number.toNat

/-- What a specifier prints: a width that begins with a zero pads with zeros
behind the sign, another one with blanks in front of it. -/
def formatted (specifier : Specifier) (number : UInt32) : List Char :=
  let sign := sign specifier number
  let digits := digits specifier number
  let missing := value 10 specifier.width - (sign.length + digits.length)
  if specifier.width.head? = some '0' then sign ++ List.replicate missing '0' ++ digits
  else List.replicate missing ' ' ++ sign ++ digits

/-- The base of a conversion. -/
def base (specifier : Specifier) : Nat := if specifier.conversion = 'd' then 10 else 16

theorem value_formatted (specifier : Specifier) (number : UInt32) :
    value (base specifier) (formatted specifier number) =
      value (base specifier) (digits specifier number) := by
  have signed : ∀ c ∈ sign specifier number, digitValue c = 0 := by
    intro c member
    rw [sign] at member
    split_ifs at member
    · cases List.mem_singleton.mp member
      rfl
    · cases member
  have padded {missing : Nat} {pad : Char} (blank : digitValue pad = 0) :
      ∀ c ∈ List.replicate missing pad, digitValue c = 0 := by
    intro c member
    rw [List.eq_of_mem_replicate member, blank]
  rw [formatted]
  split_ifs with zeros
  · rw [List.append_assoc, value_append_of_zero _ _ signed, value_append_of_zero _ _ (padded rfl)]
  · rw [List.append_assoc, value_append_of_zero _ _ (padded rfl), value_append_of_zero _ _ signed]

theorem value_digits (specifier : Specifier) (number : UInt32) :
    value (base specifier) (digits specifier number) =
      if specifier.conversion = 'd' ∧ 2 ^ 31 ≤ number.toNat then 2 ^ 32 - number.toNat
      else number.toNat := by
  rw [base, digits]
  by_cases decimal : specifier.conversion = 'd'
  · rw [if_pos decimal, if_pos decimal, value_toDigits (by omega) (by omega)]
    by_cases negative : 2 ^ 31 ≤ number.toNat
    · rw [if_neg (by omega), if_pos ⟨decimal, negative⟩]
    · rw [if_pos (by omega), if_neg fun both => negative both.2]
  · rw [if_neg decimal, if_neg decimal, value_toDigits (by omega) le_rfl,
      if_neg fun both => decimal both.1]

/-- The digits of a number are those of a base. -/
theorem digits_eq (specifier : Specifier) (number : UInt32) :
    ∃ magnitude, digits specifier number = Nat.toDigits (base specifier) magnitude := by
  rw [digits, base]
  split_ifs
  · exact ⟨_, rfl⟩
  · exact ⟨_, rfl⟩
  · exact ⟨_, rfl⟩

theorem base_bounds (specifier : Specifier) : 1 < base specifier ∧ base specifier ≤ 16 := by
  rw [base]
  split_ifs <;> omega

/-- Digits are no sign. -/
theorem minus_mem_formatted {specifier : Specifier} {number : UInt32} :
    '-' ∈ formatted specifier number ↔ specifier.conversion = 'd' ∧ 2 ^ 31 ≤ number.toNat := by
  have noMinus : '-' ∉ digits specifier number := by
    rcases digits_eq specifier number with ⟨magnitude, isDigits⟩
    have bounds := base_bounds specifier
    intro member
    rw [isDigits] at member
    rcases exists_digitChar_of_mem bounds.1 member with ⟨digit, small, isMinus⟩
    have each : ∀ digit < 16, '-' ≠ Nat.digitChar digit := by decide
    exact each digit (by omega) isMinus
  have signed : '-' ∈ sign specifier number ↔
      specifier.conversion = 'd' ∧ 2 ^ 31 ≤ number.toNat := by
    rw [sign]
    split_ifs with negative
    · exact iff_of_true List.mem_cons_self negative
    · exact iff_of_false List.not_mem_nil negative
  rw [formatted]
  split_ifs <;> simp [noMinus, signed]

/-- The text printed for a number determines it. -/
theorem formatted_injective (specifier : Specifier) :
    Function.Injective (formatted specifier) := by
  intro first second same
  have values := congrArg (value (base specifier)) same
  have signs : (specifier.conversion = 'd' ∧ 2 ^ 31 ≤ first.toNat) ↔
      (specifier.conversion = 'd' ∧ 2 ^ 31 ≤ second.toNat) := by
    rw [← minus_mem_formatted, ← minus_mem_formatted, same]
  rw [value_formatted, value_formatted, value_digits, value_digits] at values
  apply UInt32.toNat_inj.mp
  have firstBound := first.toNat_lt
  have secondBound := second.toNat_lt
  by_cases negative : specifier.conversion = 'd' ∧ 2 ^ 31 ≤ first.toNat
  · rw [if_pos negative, if_pos (signs.mp negative)] at values
    omega
  · rw [if_neg negative, if_neg fun other => negative (signs.mpr other)] at values
    exact values

/-! ### Texts without other percent signs -/

/-- Percent signs stand in matches only. -/
structure Plain (tokens : List Token) : Prop where
  char : ∀ c, .char c ∈ tokens → c ≠ '%'
  spec : ∀ specifier, .spec specifier ∈ tokens → specifier.WellFormed

theorem Plain.sub {part all : List Token} (plain : Plain all) (within : part ⊆ all) :
    Plain part where
  char c member := plain.char c (within member)
  spec specifier member := plain.spec specifier (within member)

theorem Plain.append {first second : List Token} (plainFirst : Plain first)
    (plainSecond : Plain second) : Plain (first ++ second) where
  char c member := (List.mem_append.mp member).elim (plainFirst.char c) (plainSecond.char c)
  spec specifier member :=
    (List.mem_append.mp member).elim (plainFirst.spec specifier) (plainSecond.spec specifier)

/-- Plain tokens are read as they are. -/
theorem Plain.tokens_render {all : List Token} (plain : Plain all) : tokens (render all) = all := by
  induction all with
  | nil => rfl
  | cons token rest inductionHypothesis =>
      have later := inductionHypothesis (plain.sub (List.subset_cons_self token rest))
      rw [render_cons]
      cases token with
      | char c =>
          have unmatched : matchHere (c :: render rest) = none := by
            rw [matchHere, if_neg (plain.char c List.mem_cons_self)]
          rw [Token.text, List.singleton_append, tokens_char unmatched, later]
      | spec specifier =>
          rw [Token.text, tokens_text (plain.spec specifier List.mem_cons_self), later]

theorem count_percent_render {all : List Token}
    (wellFormed : ∀ specifier, .spec specifier ∈ all → specifier.WellFormed) :
    (render all).count '%' = (specifiers all).length + all.count (.char '%') := by
  induction all with
  | nil => rfl
  | cons token rest inductionHypothesis =>
      have later := inductionHypothesis fun specifier member =>
        wellFormed specifier (List.mem_cons_of_mem _ member)
      rw [render_cons, List.count_append, later, List.count_cons]
      cases token with
      | char c =>
          have same : (Token.char c == Token.char '%') = (c == '%') := by
            simp
          rw [same, Token.text, List.count_singleton]
          simp only [specifiers, List.filterMap_cons]
          omega
      | spec specifier =>
          have good := wellFormed specifier List.mem_cons_self
          have converts : specifier.conversion ≠ '%' := by
            rcases good.conversion with isX | isD
            · simp [isX]
            · simp [isD]
          have one : specifier.text.count '%' = 1 := by
            simp [Specifier.text, count_percent_width good, converts]
          rw [Token.text, one]
          simp [specifiers]
          omega

/-- A name in which all percent signs, as many as given, begin specifiers. -/
structure BaseName (fileName : List Char) (specifierCount : Nat) : Prop where
  matched : (regexMatches fileName).length = specifierCount
  only : fileName.count '%' = specifierCount

theorem BaseName.plain {fileName : List Char} {specifierCount : Nat}
    (baseName : BaseName fileName specifierCount) : Plain (tokens fileName) where
  char := by
    have counted := @count_percent_render (tokens fileName) fun _ => wellFormed_of_mem
    rw [render_tokens, baseName.only, ← length_regexMatches, baseName.matched] at counted
    rintro c member rfl
    exact List.count_eq_zero.mp (by omega) member
  spec specifier member := wellFormed_of_mem member

/-! ### Null characters -/

def null : Char := Char.ofNat 0

/-- What `c_str()` is up to the first null. -/
def cString (text : List Char) : List Char := text.takeWhile (· ≠ null)

/-- Tokens up to the first null. -/
def upToNull (tokens : List Token) : List Token := tokens.takeWhile (· ≠ .char null)

theorem matchHere_append {text : List Char} {specifier : Specifier}
    (found : matchHere text = some specifier) (more : List Char) :
    matchHere (text ++ more) = some specifier := by
  rcases matchHere_eq_some found with ⟨wellFormed, rest, rfl⟩
  rw [List.append_assoc, matchHere_text wellFormed]

theorem Specifier.WellFormed.ne_null {specifier : Specifier} (wellFormed : specifier.WellFormed) :
    ∀ c ∈ specifier.text, c ≠ null := by
  rintro c member rfl
  rw [Specifier.text, List.mem_cons, List.mem_append, List.mem_singleton] at member
  rcases member with isPercent | isDigit | converts
  · exact absurd isPercent (by decide)
  · exact absurd (wellFormed.width _ isDigit) (by decide)
  · rcases wellFormed.conversion with isX | isD
    · exact absurd (converts.trans isX) (by decide)
    · exact absurd (converts.trans isD) (by decide)

/-- No match goes over a null. -/
theorem tokens_cString (text : List Char) : tokens (cString text) = upToNull (tokens text) := by
  induction text using text_induction with
  | nil => rfl
  | spec specifier rest wellFormed inductionHypothesis =>
      have kept : cString (specifier.text ++ rest) = specifier.text ++ cString rest :=
        List.takeWhile_append_of_pos fun c member => by simpa using wellFormed.ne_null c member
      rw [kept, tokens_text wellFormed, tokens_text wellFormed, inductionHypothesis, upToNull,
        upToNull, List.takeWhile_cons_of_pos (by simp)]
  | char c rest unmatched inductionHypothesis =>
      by_cases isNull : c = null
      · rw [cString, List.takeWhile_cons_of_neg (by simp [isNull]), tokens_char unmatched, upToNull,
          List.takeWhile_cons_of_neg (by simp [isNull])]
        rfl
      · have alone : matchHere (c :: cString rest) = none := by
          rw [Option.eq_none_iff_forall_ne_some]
          intro specifier found
          have more := matchHere_append found (rest.dropWhile (· ≠ null))
          rw [List.cons_append, cString, List.takeWhile_append_dropWhile, unmatched] at more
          cases more
        rw [cString, List.takeWhile_cons_of_pos (by simpa using isNull), ← cString,
          tokens_char alone, tokens_char unmatched, inductionHypothesis, upToNull, upToNull,
          List.takeWhile_cons_of_pos (by simpa using isNull)]

theorem Plain.upToNull {all : List Token} (plain : Plain all) : Plain (upToNull all) :=
  plain.sub (List.takeWhile_subset _)

/-! ### Printing -/

/-- Print tokens, with one argument for every specifier; `none` where the
behaviour is undefined, because there is no argument left, or where a percent
sign begins none of these specifiers. -/
def fill : List Token → List UInt32 → Option (List Char)
  | [], _ => some []
  | .char c :: rest, arguments => if c = '%' then none else (fill rest arguments).map (c :: ·)
  | .spec _ :: _, [] => none
  | .spec specifier :: rest, number :: arguments =>
      (fill rest arguments).map (formatted specifier number ++ ·)

/-- `sprintf`, into an array that is long enough. -/
def sprintf (format : List Char) (arguments : List UInt32) : Option (List Char) :=
  fill (tokens (cString format)) arguments

theorem fill_append {first : List Token} {arguments : List UInt32}
    (enough : (specifiers first).length = arguments.length) (second : List Token)
    (more : List UInt32) :
    fill (first ++ second) (arguments ++ more) =
      (fill first arguments).bind fun text => (fill second more).map (text ++ ·) := by
  induction first generalizing arguments with
  | nil =>
      cases List.length_eq_zero_iff.mp enough.symm
      simp [fill]
  | cons token rest inductionHypothesis =>
      cases token with
      | char c =>
          rw [List.cons_append, fill, fill]
          split_ifs
          · rfl
          · rw [inductionHypothesis enough]
            cases fill rest arguments <;> simp [Function.comp_def]
      | spec specifier =>
          cases arguments with
          | nil => cases enough
          | cons number arguments =>
              rw [List.cons_append, List.cons_append, fill, fill,
                inductionHypothesis (Nat.succ.inj enough)]
              cases fill rest arguments <;> simp [Function.comp_def]

/-- Arguments that are too many do not matter. -/
theorem fill_take (all : List Token) (arguments : List UInt32) :
    fill all arguments = fill all (arguments.take (specifiers all).length) := by
  induction all generalizing arguments with
  | nil => rfl
  | cons token rest inductionHypothesis =>
      cases token with
      | char c =>
          rw [fill, fill, inductionHypothesis]
          rfl
      | spec specifier =>
          cases arguments with
          | nil => rfl
          | cons number arguments =>
              rw [fill, inductionHypothesis]
              rfl

/-- Plain tokens are printed when there are enough arguments. -/
theorem Plain.fill_isSome {all : List Token} (plain : Plain all) {arguments : List UInt32}
    (enough : (specifiers all).length ≤ arguments.length) : (fill all arguments).isSome := by
  induction all generalizing arguments with
  | nil => rfl
  | cons token rest inductionHypothesis =>
      have later := plain.sub (List.subset_cons_self token rest)
      cases token with
      | char c =>
          rw [fill, if_neg (plain.char c List.mem_cons_self), Option.isSome_map]
          exact inductionHypothesis later enough
      | spec specifier =>
          cases arguments with
          | nil => cases enough
          | cons number arguments =>
              rw [fill, Option.isSome_map]
              exact inductionHypothesis later (Nat.le_of_succ_le_succ enough)

/-- What is printed for tokens in the middle stands between the same texts,
whatever these tokens and their arguments are. -/
theorem fill_around {before after : List Token} (plain : Plain (before ++ after))
    {front back : List UInt32} (exact : (specifiers before).length = front.length)
    (enough : (specifiers after).length ≤ back.length) :
    ∃ left right, ∀ middle numbers, (specifiers middle).length = numbers.length →
      fill (before ++ (middle ++ after)) (front ++ (numbers ++ back)) =
        (fill middle numbers).map fun text => left ++ (text ++ right) := by
  have plainBefore := plain.sub (List.subset_append_left before after)
  have plainAfter := plain.sub (List.subset_append_right before after)
  rcases Option.isSome_iff_exists.mp (plainBefore.fill_isSome exact.le) with ⟨left, isLeft⟩
  rcases Option.isSome_iff_exists.mp (plainAfter.fill_isSome enough) with ⟨right, isRight⟩
  refine ⟨left, right, fun middle numbers same => ?_⟩
  rw [fill_append exact, fill_append same, isLeft, isRight]
  cases fill middle numbers <;> rfl

end Dift.Names
