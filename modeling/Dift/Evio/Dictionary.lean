import Dift.Evio.Structures

/-!
Owns `EvioDictionaryEntry` as a key: its constructors and its `operator==`. Two
entries are compared by what they say of themselves, and by their parents when
both have one. An entry without a parent therefore equals entries whose parents
differ, and that is the only way in which equality fails to be an equivalence.
-/

namespace Dift.Evio.Dictionary

/-! ### Entries -/

inductive EvioDictionaryEntryType where
  | tagNum
  | tagOnly
  | tagRange
deriving DecidableEq, Repr

/-- An entry; the parent is shared and never changed, hence a value. -/
inductive EvioDictionaryEntry where
  | mk (tag tagEnd : UInt16) (num : UInt8) (numValid : Bool) (type : DataType)
      (format description : String) (entryType : EvioDictionaryEntryType)
      (parentEntry : Option EvioDictionaryEntry)

namespace EvioDictionaryEntry

def tag : EvioDictionaryEntry → UInt16
  | .mk tag _ _ _ _ _ _ _ _ => tag

def tagEnd : EvioDictionaryEntry → UInt16
  | .mk _ tagEnd _ _ _ _ _ _ _ => tagEnd

def num : EvioDictionaryEntry → UInt8
  | .mk _ _ num _ _ _ _ _ _ => num

def numValid : EvioDictionaryEntry → Bool
  | .mk _ _ _ numValid _ _ _ _ _ => numValid

def entryType : EvioDictionaryEntry → EvioDictionaryEntryType
  | .mk _ _ _ _ _ _ _ entryType _ => entryType

def parentEntry : EvioDictionaryEntry → Option EvioDictionaryEntry
  | .mk _ _ _ _ _ _ _ _ parentEntry => parentEntry

/-- The private constructor, to which the others delegate. -/
def construct (tag : UInt16) (num : UInt8) (tagEnd : UInt16) (numValid : Bool) (type : DataType)
    (description format : String) (parent : Option EvioDictionaryEntry) : EvioDictionaryEntry :=
  let isRange := ¬ (tagEnd = tag ∨ tagEnd = 0)
  let ends : UInt16 × UInt16 :=
    if tagEnd = tag ∨ tagEnd = 0 then (tag, 0)
    else if tagEnd < tag then (tagEnd, tag)
    else (tag, tagEnd)
  let entryType :=
    if ¬ isRange then
      if numValid then EvioDictionaryEntryType.tagNum else .tagOnly
    else .tagRange
  .mk ends.1 ends.2 num numValid type format description entryType parent

/-- The constructor from a tag, a num and a type. -/
def ofTagNumType (tag : UInt16) (num : UInt8) (type : DataType) : EvioDictionaryEntry :=
  construct tag num 0 true type "" "" none

/-- The constructor without a num. -/
def ofTag (tag : UInt16) (tagEnd : UInt16 := 0) (type : DataType := .unknown32)
    (description : String := "") (format : String := "")
    (parent : Option EvioDictionaryEntry := none) : EvioDictionaryEntry :=
  construct tag 0 tagEnd false type description format parent

/-- The constructor with a num. -/
def ofTagNum (tag : UInt16) (num : UInt8) (tagEnd : UInt16 := 0) (type : DataType := .unknown32)
    (description : String := "") (format : String := "")
    (parent : Option EvioDictionaryEntry := none) : EvioDictionaryEntry :=
  construct tag num tagEnd true type description format parent

/-- The body of `operator==` for two different objects. -/
def equalTo (this other : EvioDictionaryEntry) : Bool :=
  let matched := this.tag == other.tag
  let matched := matched && this.numValid == other.numValid
  let matched := if this.numValid then matched && this.num == other.num else matched
  let matched := matched && this.tagEnd == other.tagEnd
  let matched := matched && this.entryType == other.entryType
  match this.parentEntry, other.parentEntry with
  | some parentEntry, some otherParent =>
      let matched := matched && parentEntry.tag == otherParent.tag
      let matched := matched && parentEntry.numValid == otherParent.numValid
      let matched :=
        if parentEntry.numValid then matched && parentEntry.num == otherParent.num else matched
      matched && parentEntry.tagEnd == otherParent.tagEnd
  | _, _ => matched

end EvioDictionaryEntry

open EvioDictionaryEntry

/-- `operator==` of the entries at two addresses. -/
def operatorEq (heap : Nat → EvioDictionaryEntry) (this other : Nat) : Bool :=
  if other = this then true else (heap this).equalTo (heap other)

/-- `operator!=`. -/
def operatorNe (heap : Nat → EvioDictionaryEntry) (this rhs : Nat) : Bool :=
  !operatorEq heap rhs this

/-! ### What is compared -/

/-- What an entry is compared by as a parent. -/
def parentKey (entry : EvioDictionaryEntry) : UInt16 × Option UInt8 × UInt16 :=
  (entry.tag, if entry.numValid then some entry.num else none, entry.tagEnd)

/-- What an entry says of itself. -/
def ownKey (entry : EvioDictionaryEntry) :
    (UInt16 × Option UInt8 × UInt16) × EvioDictionaryEntryType :=
  (parentKey entry, entry.entryType)

/-- Parents that are both there are the same as keys. -/
def ParentsAgree (left right : Option EvioDictionaryEntry) : Prop :=
  ∀ parent ∈ left, ∀ other ∈ right, parentKey parent = parentKey other

theorem parentKey_eq_iff (left right : EvioDictionaryEntry) :
    parentKey left = parentKey right ↔
      left.tag = right.tag ∧ left.numValid = right.numValid ∧
        (left.numValid = true → left.num = right.num) ∧ left.tagEnd = right.tagEnd := by
  unfold parentKey
  cases left.numValid <;> cases right.numValid <;> simp

theorem equalTo_iff (this other : EvioDictionaryEntry) :
    this.equalTo other = true ↔
      ownKey this = ownKey other ∧ ParentsAgree this.parentEntry other.parentEntry := by
  have own : ownKey this = ownKey other ↔
      parentKey this = parentKey other ∧ this.entryType = other.entryType := Prod.ext_iff
  rw [own, parentKey_eq_iff, equalTo]
  cases mine : this.parentEntry with
  | none =>
      cases this.numValid <;> simp [ParentsAgree, and_assoc]
  | some parent =>
      cases others : other.parentEntry with
      | none => cases this.numValid <;> simp [ParentsAgree, and_assoc]
      | some otherParent =>
          have agree : ParentsAgree (some parent) (some otherParent) ↔
              parentKey parent = parentKey otherParent := by
            simp [ParentsAgree]
          rw [agree, parentKey_eq_iff]
          cases valid : parent.numValid <;> cases this.numValid <;> simp [valid, and_assoc]

theorem ParentsAgree.refl (parent : Option EvioDictionaryEntry) : ParentsAgree parent parent := by
  intro one isOne other isOther
  rw [Option.mem_unique isOne isOther]

theorem ParentsAgree.symm {left right : Option EvioDictionaryEntry}
    (agree : ParentsAgree left right) : ParentsAgree right left :=
  fun parent isParent other isOther => (agree other isOther parent isParent).symm

/-- The shortcut for one and the same object changes nothing. -/
theorem operatorEq_iff (heap : Nat → EvioDictionaryEntry) (this other : Nat) :
    operatorEq heap this other = true ↔
      ownKey (heap this) = ownKey (heap other) ∧
        ParentsAgree (heap this).parentEntry (heap other).parentEntry := by
  rw [operatorEq]
  split
  next same =>
    rw [same]
    exact ⟨fun _ => ⟨rfl, .refl _⟩, fun _ => rfl⟩
  next => exact equalTo_iff _ _

theorem operatorEq_refl (heap : Nat → EvioDictionaryEntry) (this : Nat) :
    operatorEq heap this this = true :=
  if_pos rfl

theorem operatorEq_symm {heap : Nat → EvioDictionaryEntry} {this other : Nat}
    (equal : operatorEq heap this other = true) : operatorEq heap other this = true := by
  rw [operatorEq_iff] at equal ⊢
  exact ⟨equal.1.symm, equal.2.symm⟩

/-- It does not matter that `operator!=` compares the other way round. -/
theorem operatorNe_eq (heap : Nat → EvioDictionaryEntry) (this rhs : Nat) :
    operatorNe heap this rhs = !operatorEq heap this rhs := by
  rw [operatorNe, Bool.not_inj_iff, Bool.eq_iff_iff]
  exact ⟨operatorEq_symm, operatorEq_symm⟩

/-- A range may be given from either end. -/
theorem construct_swap (tag : UInt16) (num : UInt8) (tagEnd : UInt16) (numValid : Bool)
    (type : DataType) (description format : String) (parent : Option EvioDictionaryEntry)
    (low : tag ≠ 0) (high : tagEnd ≠ 0) :
    construct tag num tagEnd numValid type description format parent =
      construct tagEnd num tag numValid type description format parent := by
  by_cases same : tagEnd = tag
  · rw [same]
  · have other : ¬ tag = tagEnd := fun equal => same equal.symm
    have oneWay : tagEnd < tag ↔ ¬ tag < tagEnd := by
      rw [UInt16.lt_iff_toNat_lt, UInt16.lt_iff_toNat_lt]
      have apart : tagEnd.toNat ≠ tag.toNat := fun equal => same (UInt16.toNat_inj.mp equal)
      omega
    by_cases below : tag < tagEnd <;>
      simp [construct, same, other, low, high, oneWay, below]

/-! ### Equivalence -/

/-- The laws of an equivalence relation, for three entries. -/
structure EquivalenceLaws (heap : Nat → EvioDictionaryEntry) (a b c : Nat) : Prop where
  refl : operatorEq heap a a = true
  symm : operatorEq heap a b = true → operatorEq heap b a = true
  trans : operatorEq heap a b = true → operatorEq heap b c = true → operatorEq heap a c = true

/-- The entry in the middle has no parent, and the others have different ones. -/
def BetweenFamilies (a b c : EvioDictionaryEntry) : Prop :=
  ownKey a = ownKey b ∧ ownKey b = ownKey c ∧ b.parentEntry = none ∧
    ¬ ParentsAgree a.parentEntry c.parentEntry

/-- A parent in the middle passes agreement on. -/
theorem ParentsAgree.trans {left right : Option EvioDictionaryEntry} {middle : EvioDictionaryEntry}
    (first : ParentsAgree left (some middle)) (second : ParentsAgree (some middle) right) :
    ParentsAgree left right := by
  intro parent isParent other isOther
  exact (first parent isParent middle rfl).trans (second middle rfl other isOther)

/-- Equality obeys the laws exactly if the entry in the middle does not stand
between two families. -/
theorem operatorEq_equivalence_iff (heap : Nat → EvioDictionaryEntry) (a b c : Nat) :
    EquivalenceLaws heap a b c ↔ ¬ BetweenFamilies (heap a) (heap b) (heap c) := by
  constructor
  · intro laws between
    obtain ⟨first, second, orphan, differ⟩ := between
    have noParent : ∀ parent : Option EvioDictionaryEntry,
        ParentsAgree parent (heap b).parentEntry := by
      intro parent one _ other isOther
      rw [orphan] at isOther
      cases isOther
    have equal := laws.trans ((operatorEq_iff heap a b).mpr ⟨first, noParent _⟩)
      ((operatorEq_iff heap b c).mpr ⟨second, (noParent _).symm⟩)
    exact differ ((operatorEq_iff heap a c).mp equal).2
  · intro apart
    apply EquivalenceLaws.mk (operatorEq_refl heap a) operatorEq_symm
    intro first second
    rw [operatorEq_iff] at first second ⊢
    apply And.intro (first.1.trans second.1)
    cases parent : (heap b).parentEntry with
    | none =>
        by_contra differ
        exact apart ⟨first.1, second.1, parent, differ⟩
    | some middle =>
        rw [parent] at first second
        exact first.2.trans second.2

/-- Two entries under different parents, and one without a parent. -/
def sampleHeap : Nat → EvioDictionaryEntry
  | 0 => ofTagNum 1 2 0 .unknown32 "" "" (some (ofTag 10))
  | 1 => ofTagNum 1 2
  | _ => ofTagNum 1 2 0 .unknown32 "" "" (some (ofTag 20))

/-- The first equals the one without a parent, that equals the last, and the
first is not the last. -/
theorem not_equivalence_sampleHeap : ¬ EquivalenceLaws sampleHeap 0 1 2 := by
  intro laws
  have equal := laws.trans (by decide) (by decide)
  revert equal
  decide

/-- On the keys of a table equality is an equivalence exactly if no key without a
parent shares what it says of itself with keys of different parents. -/
theorem operatorEq_equivalenceOn_iff (heap : Nat → EvioDictionaryEntry) (keys : Set Nat) :
    (∀ a ∈ keys, ∀ b ∈ keys, ∀ c ∈ keys, EquivalenceLaws heap a b c) ↔
      ∀ b ∈ keys, (heap b).parentEntry = none → ∀ a ∈ keys, ∀ c ∈ keys,
        ownKey (heap a) = ownKey (heap b) → ownKey (heap b) = ownKey (heap c) →
        ParentsAgree (heap a).parentEntry (heap c).parentEntry := by
  constructor
  · intro laws b isB orphan a isA c isC first second
    have apart := (operatorEq_equivalence_iff heap a b c).mp (laws a isA b isB c isC)
    by_contra differ
    exact apart ⟨first, second, orphan, differ⟩
  · intro agree a isA b isB c isC
    rw [operatorEq_equivalence_iff]
    intro between
    obtain ⟨first, second, orphan, differ⟩ := between
    exact differ (agree b isB orphan a isA c isC first second)

end Dift.Evio.Dictionary
