import Dift.Foundation.Nesting
import Dift.Foundation.Rewriting
import Dift.Names.Printing

/-!
Owns the base of file names: `generateBaseFileName` replaces run types and
environmental variables in a text it looks through from the beginning after
every replacement, so that it may find what it has put in. `RunTypeSettles` says
exactly when the first loop ends, and `VariablesSettle` when the second does,
which is when no variable is expanded inside its own value without a bound.
-/

namespace Dift.Names

open Dift.Foundation
open Dift.Foundation.Nesting (firstMatch Matching Nest nestRound)
open Dift.Foundation.Rewriting (find Apart)

/-! ### The run type -/

/-- One round of the loop over `%s`. -/
def runTypeRound (runType text : List Char) : Round (List Char) (List Char) :=
  match find ['%', 's'] text with
  | none => .leave text
  | some pos =>
      .again (if runType.length < 1 then replace text pos 2 [] else replace text pos 2 runType)

/-! ### Environmental variables -/

/-- Names and values. The first entry for a name counts. -/
abbrev Environment := List (List Char × List Char)

/-- `getenv` reads the name up to the first null. -/
def getenv (environment : Environment) (name : List Char) : Option (List Char) :=
  environment.lookup (cString name)

/-- What a variable is replaced by. -/
def var (environment : Environment) (name : List Char) : List Char :=
  match getenv environment name with
  | none => []
  | some s => s

/-- The name in a match of `\$\(([^)]+)\)` that begins with the first character. -/
def variableHere : List Char → Option (List Char)
  | '$' :: '(' :: rest =>
      match rest.dropWhile (· ≠ ')') with
      | [] => none
      | _ :: _ =>
          let name := rest.takeWhile (· ≠ ')')
          if name = [] then none else some name
  | _ => none

/-- The length of a match. -/
def matchLength (name : List Char) : Nat := name.length + 3

/-- One round of the loop in `expandEnvironmentalVariables`. -/
def expandRound (environment : Environment) (text : List Char) : Round (List Char) (List Char) :=
  match firstMatch variableHere text with
  | none => .leave text
  | some (position, name) =>
      .again (replace text position (matchLength name) (var environment name))

/-! ### The function -/

/-- What a call comes to. It is undefined when an iterator past the last match is
used. -/
inductive Generated where
  | throws (message : String)
  | undefined
  | returns (specifierCount : UInt32) (modifiedBaseName : List Char)
deriving DecidableEq, Repr

/-- What follows the loops. -/
def countSpecifiers (modifiedBaseName : List Char) : Generated :=
  match countAndFixIntSpecifiers modifiedBaseName with
  | none => .undefined
  | some (specifierCount, modifiedBaseName) =>
      if specifierCount > 3 then .throws "baseName arg is improperly formatted"
      else .returns specifierCount modifiedBaseName

/-- `generateBaseFileName`, with at most so many rounds for each of its loops. -/
def generateBaseFileName (fuel : Nat) (environment : Environment)
    (baseName runType : List Char) : Option Generated :=
  if baseName.length < 1 then some (.throws "empty string arg")
  else
    (iterate (runTypeRound runType) fuel baseName).bind fun modifiedBaseName =>
      (iterate (expandRound environment) fuel modifiedBaseName).map countSpecifiers

/-- The loops end. -/
def Terminates (environment : Environment) (baseName runType : List Char) : Prop :=
  ∃ fuel, (generateBaseFileName fuel environment baseName runType).isSome

/-! ### When the loops end -/

/-- There is no `%s` in the base name, or none in the run type and either this
does not begin with two of the letters and end with two percent signs, or every
`%s` in the base name stands apart. -/
def RunTypeSettles (baseName runType : List Char) : Prop :=
  ¬ ['%', 's'] <:+: baseName ∨ ¬ ['%', 's'] <:+: runType ∧
    (¬ (['s', 's'] <+: runType ∧ ['%', '%'] <:+ runType) ∨ Apart '%' 's' baseName)

/-- For every variable there is a bound on how often it is being expanded at once,
each time inside its own value, however far the text has been expanded. -/
def VariablesSettle (environment : Environment) (text : List Char) : Prop :=
  ∀ name, ∃ bound, ∀ nest,
    Reaches (nestRound variableHere matchLength (var environment) cString) (.whole text) nest →
      nest.labels.count name ≤ bound

theorem runTypeRound_eq (runType : List Char) :
    runTypeRound runType = Rewriting.round '%' 's' runType := by
  funext text
  rw [runTypeRound, Rewriting.round]
  cases find ['%', 's'] text with
  | none => rfl
  | some pos =>
      dsimp only
      split_ifs with empty
      · rw [List.length_eq_zero_iff.mp (Nat.lt_one_iff.mp empty)]
        rfl
      · rfl

theorem runTypeRound_returns_iff (baseName runType : List Char) :
    (∃ text, Returns (runTypeRound runType) baseName text) ↔ RunTypeSettles baseName runType := by
  rw [runTypeRound_eq]
  exact Rewriting.exists_returns_iff (by decide) baseName

theorem variableHere_eq_some {text name : List Char} :
    variableHere text = some name ↔
      name ≠ [] ∧ ')' ∉ name ∧ ∃ rest, text = '$' :: '(' :: (name ++ ')' :: rest) := by
  constructor
  · intro here
    rw [variableHere.eq_def] at here
    split at here
    case h_1 rest =>
      split at here
      case h_1 => cases here
      case h_2 c behind closing =>
        dsimp only at here
        split_ifs at here with empty
        cases here
        have isClosing : c = ')' := by
          have first := List.head?_dropWhile_not (· ≠ ')') rest
          rw [closing] at first
          simpa using first
        refine ⟨empty, fun member => ?_, behind, ?_⟩
        · simpa using List.all_eq_true.mp List.all_takeWhile _ member
        · rw [isClosing] at closing
          rw [← closing, List.takeWhile_append_dropWhile]
    case h_2 => cases here
  · intro closed
    obtain ⟨nonempty, closed, rest, rfl⟩ := closed
    have kept : ∀ c ∈ name, decide (c ≠ ')') = true := by
      intro c member
      exact decide_eq_true (ne_of_mem_of_not_mem member closed)
    have front : (name ++ ')' :: rest).takeWhile (· ≠ ')') = name := by
      rw [List.takeWhile_append_of_pos kept, List.takeWhile_cons_of_neg (by simp), List.append_nil]
    have back : (name ++ ')' :: rest).dropWhile (· ≠ ')') = ')' :: rest := by
      rw [List.dropWhile_append_of_pos kept, List.dropWhile_cons_of_neg (by simp)]
    rw [variableHere, back, front]
    exact if_neg nonempty

theorem matching_variableHere : Matching variableHere matchLength where
  positive name := Nat.succ_pos _
  within text name here := by
    rcases variableHere_eq_some.mp here with ⟨-, -, rest, rfl⟩
    simp [matchLength]
  shorten text name here := by
    rcases variableHere_eq_some.mp here with ⟨nonempty, closed, rest, rfl⟩
    refine variableHere_eq_some.mpr ⟨nonempty, closed, [], ?_⟩
    rw [matchLength, List.take_succ_cons, List.take_succ_cons, List.take_length_add_append]
    rfl
  extend text more name here := by
    rcases variableHere_eq_some.mp here with ⟨nonempty, closed, rest, rfl⟩
    exact variableHere_eq_some.mpr ⟨nonempty, closed, rest ++ more, by simp⟩

theorem var_eq {environment : Environment} {name : List Char} :
    var environment name = [] ∨ (cString name, var environment name) ∈ environment := by
  rw [var, getenv]
  cases found : environment.lookup (cString name) with
  | none => exact Or.inl rfl
  | some s =>
      rcases List.lookup_eq_some_iff.mp found with ⟨before, after, isWhole, -⟩
      refine Or.inr ?_
      rw [isWhole]
      exact List.mem_append_right before List.mem_cons_self

theorem expandRound_eq (environment : Environment) :
    expandRound environment = Nesting.round variableHere matchLength (var environment) := by
  funext text
  rw [expandRound, Nesting.round]
  cases firstMatch variableHere text <;> rfl

theorem expandRound_returns_iff (environment : Environment) (text : List Char) :
    (∃ expanded, Returns (expandRound environment) text expanded) ↔
      VariablesSettle environment text := by
  have bounded (name : List Char) : (var environment name).length ≤
      (environment.map fun entry => entry.2.length).sum := by
    rcases @var_eq environment name with empty | member
    · rw [empty]
      exact Nat.zero_le _
    · exact List.single_le_sum (by simp) _ (List.mem_map_of_mem member)
  have labelled (name : List Char) (filled : var environment name ≠ []) :
      cString name ∈ environment.map Prod.fst :=
    List.mem_map_of_mem (var_eq.resolve_left filled)
  rw [expandRound_eq]
  exact Nesting.exists_returns_iff matching_variableHere bounded labelled text

/-- What a round replaces. -/
theorem expandRound_again {environment : Environment} {text next : List Char}
    (step : expandRound environment text = .again next) :
    ∃ left name right, text = left ++ '$' :: '(' :: (name ++ ')' :: right) ∧
      next = left ++ (var environment name ++ right) := by
  rw [expandRound] at step
  split at step
  case h_1 => cases step
  case h_2 position name first =>
    cases step
    rcases variableHere_eq_some.mp (Nesting.firstMatch_eq_some first).1 with ⟨-, -, right, isMatch⟩
    refine ⟨text.take position, name, right, ?_, ?_⟩
    · rw [← isMatch, List.take_append_drop]
    · have behind : text.drop (position + matchLength name) = right := by
        rw [← List.drop_drop, isMatch, matchLength, List.drop_succ_cons, List.drop_succ_cons,
          List.drop_length_add_append]
        rfl
      rw [replace, behind, List.append_assoc]

/-- Variables settle in every text when one of the three characters around a name
is in no value. -/
theorem variablesSettle_of_notMem {environment : Environment} {c : Char}
    (around : c = '$' ∨ c = '(' ∨ c = ')') (missing : ∀ entry ∈ environment, c ∉ entry.2)
    (text : List Char) : VariablesSettle environment text := by
  rw [← expandRound_returns_iff]
  refine exists_returns (fun _ => True) (List.count c) ?_ trivial
  intro before after _ step
  rcases expandRound_again step with ⟨left, name, right, rfl, rfl⟩
  have notThere : (var environment name).count c = 0 := by
    rcases @var_eq environment name with empty | member
    · rw [empty]
      rfl
    · exact List.count_eq_zero.mpr (missing _ member)
  refine ⟨trivial, ?_⟩
  have one : 1 ≤ ['$', '(', ')'].count c := by
    rcases around with rfl | rfl | rfl <;> decide
  simp only [List.count_append, List.count_cons, List.count_nil, notThere] at one ⊢
  omega

theorem terminates_iff_returns (environment : Environment) {baseName : List Char}
    (nonempty : baseName ≠ []) (runType : List Char) :
    Terminates environment baseName runType ↔
      ∃ text, Returns (runTypeRound runType) baseName text ∧
        ∃ expanded, Returns (expandRound environment) text expanded := by
  have long : ¬ baseName.length < 1 := by
    rw [Nat.lt_one_iff, List.length_eq_zero_iff]
    exact nonempty
  constructor
  · intro terminates
    obtain ⟨fuel, ends⟩ := terminates
    rcases Option.isSome_iff_exists.mp ends with ⟨generated, isGenerated⟩
    rw [generateBaseFileName, if_neg long] at isGenerated
    rcases Option.bind_eq_some_iff.mp isGenerated with ⟨text, first, second⟩
    rcases Option.map_eq_some_iff.mp second with ⟨expanded, isExpanded, -⟩
    exact ⟨text, ⟨fuel, first⟩, expanded, fuel, isExpanded⟩
  · intro settled
    obtain ⟨text, ⟨fuel, first⟩, expanded, more, second⟩ := settled
    refine ⟨max fuel more, ?_⟩
    rw [generateBaseFileName, if_neg long, iterate_mono (le_max_left fuel more) first,
      Option.bind_some, iterate_mono (le_max_right fuel more) second]
    rfl

/-- The function ends exactly when the run type settles in the base name, and the
variables in the text that it then has. -/
theorem generateBaseFileName_terminates_iff (environment : Environment)
    (baseName runType : List Char) :
    Terminates environment baseName runType ↔
      RunTypeSettles baseName runType ∧
        ∀ text, Returns (runTypeRound runType) baseName text →
          VariablesSettle environment text := by
  have loops : (∃ text, Returns (runTypeRound runType) baseName text ∧
      ∃ expanded, Returns (expandRound environment) text expanded) ↔
        RunTypeSettles baseName runType ∧
          ∀ text, Returns (runTypeRound runType) baseName text →
            VariablesSettle environment text := by
    constructor
    · intro settled
      obtain ⟨text, first, second⟩ := settled
      refine ⟨(runTypeRound_returns_iff baseName runType).mp ⟨text, first⟩, fun other same => ?_⟩
      rw [same.unique first]
      exact (expandRound_returns_iff environment text).mp second
    · intro settles
      obtain ⟨runTypeSettles, variablesSettle⟩ := settles
      rcases (runTypeRound_returns_iff baseName runType).mpr runTypeSettles with ⟨text, first⟩
      exact ⟨text, first,
        (expandRound_returns_iff environment text).mpr (variablesSettle text first)⟩
  by_cases empty : baseName = []
  · have nothing : ∃ text, Returns (runTypeRound runType) baseName text ∧
        ∃ expanded, Returns (expandRound environment) text expanded := by
      rw [empty]
      exact ⟨[], .of_leave rfl, [], .of_leave rfl⟩
    refine iff_of_true ⟨0, ?_⟩ (loops.mp nothing)
    rw [empty]
    rfl
  · rw [terminates_iff_returns environment empty]
    exact loops

/-- A run type that contains `%s`, and a variable whose value is the reference to
itself. -/
theorem not_terminates_selfReference :
    ¬ Terminates [] ['%', 's'] ['%', 's'] ∧
      ¬ Terminates [(['A'], ['$', '(', 'A', ')'])] ['$', '(', 'A', ')'] [] := by
  constructor
  · rw [generateBaseFileName_terminates_iff]
    intro settles
    rcases settles with ⟨nowhere | ⟨free, -⟩, -⟩
    · exact nowhere List.infix_rfl
    · exact free List.infix_rfl
  · rw [terminates_iff_returns _ (by decide)]
    intro settled
    obtain ⟨text, first, expanded, second⟩ := settled
    have same := first.unique (.of_leave rfl)
    rw [same] at second
    refine Returns.invariant (· = ['$', '(', 'A', ')']) (fun _ => False) ?_ ?_ rfl second
    · rintro before after rfl step
      cases step
      rfl
    · rintro before value rfl step
      cases step

end Dift.Names
