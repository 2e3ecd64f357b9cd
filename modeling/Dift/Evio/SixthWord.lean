import Dift.Foundation.BitField
import Dift.Evio.Buffer

/-!
Owns the fields of a block header of evio version 4 and its sixth word, which
holds the version in its low byte and the bit info above it: the methods on the
bit set, the static ones on the word, and the four forms of `generateSixthWord`.
The word and the bit set say the same; what the forms that take flags and an event
type say is read back exactly when the bit set did not already say more.
-/

namespace Dift.Evio.Block

open Dift.Foundation

/-- `std::bitset<24>`. -/
abbrev BitInfo := Fin 24 → Bool

/-- The fields of the class with their defaults, less the byte order and the
position in the buffer. -/
structure HeaderV4 where
  size : BitVec 32 := 0
  number : BitVec 32 := 1
  headerLength : BitVec 32 := 8
  eventCount : BitVec 32 := 0
  version : BitVec 32 := 4
  reserved1 : BitVec 32 := 0
  reserved2 : BitVec 32 := 0
  bitInfo : BitInfo := fun _ => false
  magicNumber : BitVec 32 := Evio.magicNumber.toBitVec
deriving DecidableEq

/-! ### Methods of the bit set -/

namespace HeaderV4

variable (header : HeaderV4)

def hasDictionary : Bool := header.bitInfo 0

def isLastBlock : Bool := header.bitInfo 1

def hasFirstEvent : Bool := header.bitInfo 6

/-- The four bits of the event type in the bit set. -/
def typeBits (bitInfo : BitInfo) (place : Fin 4) : Bool := bitInfo ⟨place + 2, by omega⟩

def getEventType : BitVec 32 := BitField.pack (typeBits header.bitInfo) 0 0

/-- Indexes beyond the set do nothing. -/
def setBit (bitIndex : Nat) (value : Bool) : HeaderV4 :=
  if inside : bitIndex < 24 then
    { header with bitInfo := Function.update header.bitInfo ⟨bitIndex, inside⟩ value }
  else header

def getSixthWord : BitVec 32 := BitField.pack header.bitInfo 8 (header.version &&& 0xff)

def parseToBitInfo (word : BitVec 32) : HeaderV4 :=
  { header with bitInfo := BitField.unpack word 8 header.bitInfo }

end HeaderV4

def setFirstEvent (bSet : BitInfo) : BitInfo := Function.update bSet 6 true

def unsetFirstEvent (bSet : BitInfo) : BitInfo := Function.update bSet 6 false

def setEventType (bSet : BitInfo) (type : BitVec 32) : BitInfo :=
  let type := if type > 15 then 15 else type
  BitField.fill bSet (fun i => decide (type >>> (i.val - 2) &&& 1#32 > 0)) [2, 3, 4, 5]

/-! ### Static methods of the word -/

def evDictionaryMask : BitVec 32 := 0x100
def evLastBlockMask : BitVec 32 := 0x200
def evEventTypeMask : BitVec 32 := 0x3C00
def evFirstEventMask : BitVec 32 := 0x4000

def hasDictionary (i : BitVec 32) : Bool := i &&& evDictionaryMask > 0

def isLastBlock (i : BitVec 32) : Bool := i &&& evLastBlockMask > 0

def hasFirstEvent (i : BitVec 32) : Bool := i &&& evFirstEventMask > 0

def setLastBlockBit (i : BitVec 32) : BitVec 32 := i ||| evLastBlockMask

def clearLastBlockBit (i : BitVec 32) : BitVec 32 := i &&& ~~~evLastBlockMask

def setFirstEventBit (i : BitVec 32) : BitVec 32 := i ||| evFirstEventMask

def clearFirstEventBit (i : BitVec 32) : BitVec 32 := i &&& ~~~evFirstEventMask

/-- The form that takes a bit set. -/
def generateSixthWord (set : BitInfo) : BitVec 32 := BitField.pack set 8 4

/-- The two flags at the end of the other forms. -/
def orFlags (v : BitVec 32) (hasDictionary isEnd : Bool) : BitVec 32 :=
  let v := if hasDictionary then v ||| 0x100 else v
  if isEnd then v ||| 0x200 else v

/-- The form that takes a bit set and flags. -/
def generateSixthWordFlags (bSet : BitInfo) (hasDictionary isEnd : Bool) : BitVec 32 :=
  orFlags (BitField.pack bSet 8 4) hasDictionary isEnd

/-- The form that takes no bit set. -/
def generateSixthWordType (version : BitVec 32) (hasDictionary isEnd : Bool)
    (eventType : BitVec 32) : BitVec 32 :=
  orFlags version hasDictionary isEnd ||| (eventType &&& 0xf) <<< 10

/-- The form that takes everything. The version is not masked here. -/
def generateSixthWordAll (bSet : BitInfo) (version : BitVec 32) (hasDictionary isEnd : Bool)
    (eventType : BitVec 32) : BitVec 32 :=
  orFlags (BitField.pack bSet 8 version) hasDictionary isEnd ||| (eventType &&& 0xf) <<< 10

/-! ### The word bit by bit -/

/-- The mask of the low byte. -/
theorem getLsbD_low {index : Nat} (inside : index < 32) :
    (0xff : BitVec 32).getLsbD index = decide (index < 8) := by
  revert index
  decide

theorem low_place (version : BitVec 32) (place : Fin 24) :
    (version &&& 0xff).getLsbD (8 + place) = false := by
  have below := place.isLt
  have outside : ¬ 8 + (place : Nat) < 8 := by omega
  rw [BitVec.getLsbD_and, getLsbD_low (by omega), decide_eq_false outside, Bool.and_false]

section

variable (header : HeaderV4)

theorem getLsbD_getSixthWord (place : Fin 24) :
    header.getSixthWord.getLsbD (8 + place) = header.bitInfo place := by
  have below := place.isLt
  rw [HeaderV4.getSixthWord, BitField.getLsbD_pack_inside _ _ _ _ (by omega), low_place,
    Bool.false_or]

/-- The low byte of a word. -/
theorem low_getSixthWord : header.getSixthWord &&& 0xff = header.version &&& 0xff := by
  apply BitVec.eq_of_getLsbD_eq
  intro index inside
  rw [BitVec.getLsbD_and, BitVec.getLsbD_and, getLsbD_low inside, HeaderV4.getSixthWord]
  by_cases low : index < 8
  · rw [BitField.getLsbD_pack_outside _ _ _ (.inl low), BitVec.getLsbD_and, getLsbD_low inside,
      Bool.and_assoc, Bool.and_self]
  · rw [decide_eq_false low, Bool.and_false, Bool.and_false]

@[simp] theorem parseToBitInfo_apply (word : BitVec 32) (place : Fin 24) :
    (header.parseToBitInfo word).bitInfo place = word.getLsbD (8 + place) :=
  BitField.unpack_apply word 8 header.bitInfo place

theorem parseToBitInfo_getSixthWord (before : HeaderV4) :
    (before.parseToBitInfo header.getSixthWord).bitInfo = header.bitInfo := by
  funext place
  rw [parseToBitInfo_apply, getLsbD_getSixthWord]

theorem getSixthWord_parseToBitInfo (word : BitVec 32) :
    ({ header with version := word &&& 0xff }.parseToBitInfo word).getSixthWord = word := by
  apply BitField.pack_unpack header.bitInfo rfl
  · intro index below
    show ((word &&& 0xff) &&& 0xff).getLsbD index = _
    rw [BitVec.getLsbD_and, BitVec.getLsbD_and, getLsbD_low (by omega), decide_eq_true below,
      Bool.and_true, Bool.and_true]
  · exact low_place _

end

theorem hasDictionary_eq (word : BitVec 32) : hasDictionary word = word.getLsbD 8 :=
  BitField.and_one_shiftLeft_pos word 8

theorem isLastBlock_eq (word : BitVec 32) : isLastBlock word = word.getLsbD 9 :=
  BitField.and_one_shiftLeft_pos word 9

theorem hasFirstEvent_eq (word : BitVec 32) : hasFirstEvent word = word.getLsbD 14 :=
  BitField.and_one_shiftLeft_pos word 14

/-- The event type of a word that was parsed. -/
theorem getLsbD_getEventType (header : HeaderV4) (index : Nat) :
    header.getEventType.getLsbD index =
      if inside : index < 4 then header.bitInfo ⟨index + 2, by omega⟩ else false := by
  rw [HeaderV4.getEventType]
  by_cases inside : index < 4
  · have bit := BitField.getLsbD_pack_inside (HeaderV4.typeBits header.bitInfo) 0 (0 : BitVec 32)
      ⟨index, inside⟩ (by simp; omega)
    simp only [Nat.zero_add] at bit
    rw [dif_pos inside, bit, show (0 : BitVec 32).getLsbD index = false from BitVec.getLsbD_zero]
    exact Bool.false_or _
  · have bit := BitField.getLsbD_pack_outside (HeaderV4.typeBits header.bitInfo) 0 (0 : BitVec 32)
      (.inr (show 0 + 4 ≤ index by omega))
    rw [dif_neg inside, bit]
    exact BitVec.getLsbD_zero

theorem getEventType_parse (header : HeaderV4) (word : BitVec 32) :
    (header.parseToBitInfo word).getEventType = (word &&& evEventTypeMask) >>> 10 := by
  have mask : ∀ index < 32, evEventTypeMask.getLsbD (10 + index) = decide (index < 4) := by decide
  apply BitVec.eq_of_getLsbD_eq
  intro index inside
  rw [getLsbD_getEventType, BitVec.getLsbD_ushiftRight, BitVec.getLsbD_and, mask index inside]
  by_cases small : index < 4
  · rw [dif_pos small, parseToBitInfo_apply, decide_eq_true small, Bool.and_true]
    congr 1
    show 8 + (index + 2) = 10 + index
    omega
  · rw [dif_neg small, decide_eq_false small, Bool.and_false]

theorem parse_or (header : HeaderV4) (word : BitVec 32) (place : Fin 24) :
    (header.parseToBitInfo (word ||| 1#32 <<< (8 + place.val))).bitInfo =
      Function.update (header.parseToBitInfo word).bitInfo place true := by
  funext other
  have below := other.isLt
  rw [parseToBitInfo_apply, BitVec.getLsbD_or, BitField.getLsbD_one_shiftLeft,
    decide_eq_true (by omega : 8 + (other : Nat) < 32), Bool.true_and]
  by_cases same : other = place
  · subst same
    rw [Function.update_self, decide_eq_true rfl, Bool.or_true]
  · have differs : ¬ 8 + (other : Nat) = 8 + place := fun equal => same (Fin.ext (by omega))
    rw [Function.update_of_ne same, decide_eq_false differs, Bool.or_false, parseToBitInfo_apply]

theorem parse_and_not (header : HeaderV4) (word : BitVec 32) (place : Fin 24) :
    (header.parseToBitInfo (word &&& ~~~(1#32 <<< (8 + place.val)))).bitInfo =
      Function.update (header.parseToBitInfo word).bitInfo place false := by
  funext other
  have below := other.isLt
  rw [parseToBitInfo_apply, BitVec.getLsbD_and, BitVec.getLsbD_not,
    BitField.getLsbD_one_shiftLeft, decide_eq_true (by omega : 8 + (other : Nat) < 32),
    Bool.true_and, Bool.true_and]
  by_cases same : other = place
  · subst same
    rw [Function.update_self, decide_eq_true rfl, Bool.not_true, Bool.and_false]
  · have differs : ¬ 8 + (other : Nat) = 8 + place := fun equal => same (Fin.ext (by omega))
    rw [Function.update_of_ne same, decide_eq_false differs, Bool.not_false, Bool.and_true,
      parseToBitInfo_apply]

/-! ### Editing either -/

/-- The edits that both the word and the bit set have methods for. -/
inductive Edit where
  | setLastBlock
  | clearLastBlock
  | setFirstEvent
  | clearFirstEvent
deriving DecidableEq, Repr

def Edit.onWord : Edit → BitVec 32 → BitVec 32
  | .setLastBlock => setLastBlockBit
  | .clearLastBlock => clearLastBlockBit
  | .setFirstEvent => setFirstEventBit
  | .clearFirstEvent => clearFirstEventBit

def Edit.onHeader : Edit → HeaderV4 → HeaderV4
  | .setLastBlock, header => header.setBit 1 true
  | .clearLastBlock, header => header.setBit 1 false
  | .setFirstEvent, header => { header with bitInfo := Block.setFirstEvent header.bitInfo }
  | .clearFirstEvent, header => { header with bitInfo := unsetFirstEvent header.bitInfo }

/-- Editing the word that was parsed, or what it was parsed to. -/
theorem Edit.parse (edit : Edit) (header : HeaderV4) (word : BitVec 32) :
    header.parseToBitInfo (edit.onWord word) = edit.onHeader (header.parseToBitInfo word) := by
  have same {first second : HeaderV4} (bits : first.bitInfo = second.bitInfo)
      (others : { first with bitInfo := second.bitInfo } = second) : first = second := by
    rw [← others, ← bits]
  cases edit with
  | setLastBlock => exact same (parse_or header word 1) rfl
  | clearLastBlock => exact same (parse_and_not header word 1) rfl
  | setFirstEvent => exact same (parse_or header word 6) rfl
  | clearFirstEvent => exact same (parse_and_not header word 6) rfl

theorem getLsbD_orFlags (v : BitVec 32) (hasDictionary isEnd : Bool) {index : Nat}
    (inside : index < 32) :
    (orFlags v hasDictionary isEnd).getLsbD index =
      (v.getLsbD index || hasDictionary && decide (index = 8) ||
        isEnd && decide (index = 9)) := by
  have dictionary : (256#32).getLsbD index = decide (index = 8) := by
    revert index
    decide
  have last : (512#32).getLsbD index = decide (index = 9) := by
    revert index
    decide
  unfold orFlags
  cases hasDictionary <;> cases isEnd <;> simp [BitVec.getLsbD_or, dictionary, last]

theorem getLsbD_typeField (eventType : BitVec 32) {index : Nat} (inside : index < 32) :
    ((eventType &&& 0xf) <<< 10).getLsbD index =
      (decide (10 ≤ index ∧ index < 14) && eventType.getLsbD (index - 10)) := by
  have mask : ∀ place < 32, (0xf : BitVec 32).getLsbD place = decide (place < 4) := by decide
  rw [BitVec.getLsbD_shiftLeft, decide_eq_true inside, Bool.true_and, BitVec.getLsbD_and,
    mask _ (by omega)]
  by_cases below : index < 10
  · simp [below]
  · by_cases small : index < 14
    · have short : index - 10 < 4 := by omega
      have above : 10 ≤ index := by omega
      simp [below, small, short, above]
    · have long : ¬ index - 10 < 4 := by omega
      simp [small, long]

section

variable (bSet : BitInfo) (version : BitVec 32) (hasDictionary isEnd : Bool)
  (eventType : BitVec 32)

theorem low_generateSixthWordAll :
    generateSixthWordAll bSet version hasDictionary isEnd eventType &&& 0xff =
      version &&& 0xff := by
  apply BitVec.eq_of_getLsbD_eq
  intro index inside
  rw [BitVec.getLsbD_and, BitVec.getLsbD_and, getLsbD_low inside]
  by_cases low : index < 8
  · have notTen : ¬ 10 ≤ index := by omega
    have notEight : index ≠ 8 := by omega
    have notNine : index ≠ 9 := by omega
    rw [generateSixthWordAll, BitVec.getLsbD_or, getLsbD_orFlags _ _ _ inside,
      getLsbD_typeField _ inside, BitField.getLsbD_pack_outside _ _ _ (.inl low)]
    simp [notTen, notEight, notNine]
  · rw [decide_eq_false low, Bool.and_false, Bool.and_false]

theorem generateSixthWordAll_place (place : Fin 24) :
    (generateSixthWordAll bSet version hasDictionary isEnd eventType).getLsbD (8 + place) =
      (version.getLsbD (8 + place) || bSet place || hasDictionary && decide (place = 0) ||
        isEnd && decide (place = 1) ||
        decide (2 ≤ place.val ∧ place.val < 6) && eventType.getLsbD (place - 2)) := by
  have below := place.isLt
  have inside : 8 + (place : Nat) < 32 := by omega
  have first : decide (8 + (place : Nat) = 8) = decide (place = 0) :=
    decide_eq_decide.mpr (by rw [Fin.ext_iff]; simp)
  have second : decide (8 + (place : Nat) = 9) = decide (place = 1) :=
    decide_eq_decide.mpr (by rw [Fin.ext_iff]; simp; omega)
  have third : decide (10 ≤ 8 + (place : Nat) ∧ 8 + (place : Nat) < 14) =
      decide (2 ≤ place.val ∧ place.val < 6) := decide_eq_decide.mpr (by omega)
  have index : 8 + (place : Nat) - 10 = place - 2 := by omega
  rw [generateSixthWordAll, BitVec.getLsbD_or, getLsbD_orFlags _ _ _ inside,
    getLsbD_typeField _ inside, BitField.getLsbD_pack_inside _ _ _ _ inside, first, second, third,
    index]

/-- The word says what it was generated from. -/
def ReadsBack : Prop :=
  let word := generateSixthWordAll bSet version hasDictionary isEnd eventType
  let parsed := ({} : HeaderV4).parseToBitInfo word
  word &&& 0xff = version ∧ parsed.hasDictionary = hasDictionary ∧ parsed.isLastBlock = isEnd ∧
    parsed.getEventType = eventType ∧ parsed.hasFirstEvent = bSet 6

theorem getEventType_eq_iff (header : HeaderV4) :
    header.getEventType = eventType ↔ eventType.toNat < 16 ∧
      ∀ place : Fin 4, header.bitInfo ⟨place + 2, by omega⟩ = eventType.getLsbD place := by
  constructor
  · intro same
    rw [← same]
    constructor
    · apply (BitField.toNat_lt_two_pow_iff _ 4).mpr
      intro index above
      rw [getLsbD_getEventType, dif_neg (by omega)]
    · intro place
      rw [getLsbD_getEventType, dif_pos place.isLt]
  · intro both
    rcases both with ⟨small, bits⟩
    apply BitVec.eq_of_getLsbD_eq
    intro index _
    rw [getLsbD_getEventType]
    by_cases inside : index < 4
    · rw [dif_pos inside]
      exact bits ⟨index, inside⟩
    · rw [dif_neg inside]
      exact ((BitField.toNat_lt_two_pow_iff eventType 4).mp small index (by omega)).symm

theorem low_eq_iff : version &&& 0xff = version ↔ version.toNat < 256 := by
  rw [← BitVec.toNat_inj, BitVec.toNat_and]
  show version.toNat &&& 2 ^ 8 - 1 = version.toNat ↔ _
  rw [Nat.and_two_pow_sub_one_eq_mod]
  omega

/-- What `generateSixthWord` is given is read back from the word exactly when the
version fits its byte, the event type its four bits, and the bit set has no flag
and no bit of an event type that the other arguments do not have. -/
theorem generateSixthWord_readsBack_iff :
    ReadsBack bSet version hasDictionary isEnd eventType ↔
      version.toNat < 256 ∧ (bSet 0 = true → hasDictionary = true) ∧
        (bSet 1 = true → isEnd = true) ∧ eventType.toNat < 16 ∧
        ∀ place : Fin 4, HeaderV4.typeBits bSet place = true →
          eventType.getLsbD place = true := by
  simp only [ReadsBack]
  rw [low_generateSixthWordAll, low_eq_iff, getEventType_eq_iff]
  have absorbs (first second : Bool) : (first || second) = second ↔
      (first = true → second = true) := by
    cases first <;> cases second <;> simp
  apply and_congr_right
  intro fits
  have high (place : Fin 24) : version.getLsbD (8 + place) = false :=
    (BitField.toNat_lt_two_pow_iff version 8).mp fits _ (by omega)
  have bit (place : Fin 24) :
      (({} : HeaderV4).parseToBitInfo
        (generateSixthWordAll bSet version hasDictionary isEnd eventType)).bitInfo place =
        (bSet place || hasDictionary && decide (place = 0) || isEnd && decide (place = 1) ||
          decide (2 ≤ place.val ∧ place.val < 6) && eventType.getLsbD (place - 2)) := by
    rw [parseToBitInfo_apply, generateSixthWordAll_place, high, Bool.false_or]
  have type (place : Fin 4) :
      (({} : HeaderV4).parseToBitInfo
        (generateSixthWordAll bSet version hasDictionary isEnd eventType)).bitInfo
          ⟨place + 2, by omega⟩ = (HeaderV4.typeBits bSet place || eventType.getLsbD place) := by
    have below := place.isLt
    have isType : 2 ≤ (place : Nat) + 2 ∧ (place : Nat) + 2 < 6 := by omega
    have notFirst : (⟨place + 2, by omega⟩ : Fin 24) ≠ 0 := by
      rw [ne_eq, Fin.ext_iff]
      exact Nat.succ_ne_zero _
    have notSecond : (⟨place + 2, by omega⟩ : Fin 24) ≠ 1 := by
      rw [ne_eq, Fin.ext_iff]
      show (place : Nat) + 2 ≠ 1
      omega
    rw [bit, decide_eq_false notFirst, decide_eq_false notSecond, decide_eq_true isType]
    simp [HeaderV4.typeBits]
  simp only [HeaderV4.hasDictionary, HeaderV4.isLastBlock, HeaderV4.hasFirstEvent, type]
  rw [bit, bit, bit]
  simp [absorbs]

/-- The last block of a file that has a dictionary, with a type of event. -/
theorem generateSixthWord_readsBack_sample :
    ReadsBack (fun place => place = 2 ∨ place = 6) 4 true true 5 :=
  (generateSixthWord_readsBack_iff _ 4 true true 5).mpr (by decide)

/-! ### Setting the event type or giving it -/

theorem word_eq_iff (first second : BitVec 32) :
    first = second ↔ first &&& 0xff = second &&& 0xff ∧
      ∀ place : Fin 24, first.getLsbD (8 + place) = second.getLsbD (8 + place) := by
  constructor
  · intro same
    rw [same]
    exact ⟨rfl, fun _ => rfl⟩
  · intro both
    rcases both with ⟨low, places⟩
    apply BitVec.eq_of_getLsbD_eq
    intro index inside
    by_cases below : index < 8
    · have bit := congrArg (fun word => word.getLsbD index) low
      rw [BitVec.getLsbD_and, BitVec.getLsbD_and, getLsbD_low inside, decide_eq_true below,
        Bool.and_true, Bool.and_true] at bit
      exact bit
    · have bit := places ⟨index - 8, by omega⟩
      have isIndex : 8 + (index - 8) = index := by omega
      rw [isIndex] at bit
      exact bit

/-- A bit set with the two flags. -/
def flags : BitInfo :=
  Function.update (Function.update (fun _ => false) 0 hasDictionary) 1 isEnd

theorem setEventType_apply (place : Fin 24) :
    setEventType bSet eventType place =
      if 2 ≤ place.val ∧ place.val < 6 then
        (if eventType > 15 then 15 else eventType).getLsbD (place - 2)
      else bSet place := by
  have member : place ∈ ([2, 3, 4, 5] : List (Fin 24)) ↔ 2 ≤ place.val ∧ place.val < 6 := by
    revert place
    decide
  rw [setEventType, BitField.fill_apply, BitField.shiftRight_and_one_pos]
  by_cases isType : 2 ≤ place.val ∧ place.val < 6
  · rw [if_pos isType, if_pos (member.mpr isType)]
  · rw [if_neg isType, if_neg (mt member.mp isType)]

theorem type_bits_iff : (∀ place : Fin 4, eventType.getLsbD place =
    (if eventType > 15 then (15 : BitVec 32) else eventType).getLsbD place) ↔
      eventType.toNat ≤ 15 ∨ eventType.toNat % 16 = 15 := by
  by_cases large : eventType > 15
  · have above : 15 < eventType.toNat := BitVec.lt_def.mp large
    have ones : ∀ place : Fin 4, (15 : BitVec 32).getLsbD place = true := by decide
    have nibble : ∀ number < 16, number = 15 ↔ ∀ place : Fin 4, number.testBit place = true := by
      decide
    have bits (place : Fin 4) : (eventType.toNat % 16).testBit place =
        eventType.getLsbD place := by
      have mod := Nat.testBit_mod_two_pow eventType.toNat 4 place
      rw [decide_eq_true place.isLt, Bool.true_and] at mod
      exact mod
    have isNibble := nibble (eventType.toNat % 16) (Nat.mod_lt _ (by decide))
    rw [if_pos large]
    simp only [ones]
    simp only [bits] at isNibble
    rw [← isNibble]
    omega
  · rw [if_neg large]
    have small : eventType.toNat ≤ 15 := not_lt.mp fun above => large (BitVec.lt_def.mpr above)
    exact iff_of_true (fun _ => rfl) (.inl small)

/-- The forms of `generateSixthWord` against the methods of a header. The form
with an event type masks it, while `setEventType` sets the largest type for all that
are larger: the two words are the same exactly for the types that fit, and those
whose low four bits are set. -/
theorem generateSixthWord_forms :
    generateSixthWord bSet = ({ bitInfo := bSet } : HeaderV4).getSixthWord ∧
    generateSixthWord bSet = generateSixthWordAll bSet 4 false false 0 ∧
    generateSixthWordFlags bSet hasDictionary isEnd =
      generateSixthWordAll bSet 4 hasDictionary isEnd 0 ∧
    generateSixthWordType version hasDictionary isEnd eventType =
      generateSixthWordAll (fun _ => false) version hasDictionary isEnd eventType ∧
    (version.toNat < 256 →
      (generateSixthWordType version hasDictionary isEnd eventType =
        ({ version := version
           bitInfo := setEventType (flags hasDictionary isEnd) eventType } :
          HeaderV4).getSixthWord ↔
        eventType.toNat ≤ 15 ∨ eventType.toNat % 16 = 15)) := by
  have unpacked : generateSixthWordType version hasDictionary isEnd eventType =
      generateSixthWordAll (fun _ => false) version hasDictionary isEnd eventType := by
    have packed : BitField.pack (fun _ : Fin 24 => false) 8 version = version := by
      apply BitVec.eq_of_getLsbD_eq
      intro index _
      rw [BitField.pack, BitField.getLsbD_packSome]
      simp
    rw [generateSixthWordAll, packed]
    rfl
  have masked : (4 : BitVec 32) = 4 &&& 0xff := by decide
  refine ⟨congrArg (BitField.pack bSet 8) masked, ?_, ?_, unpacked, ?_⟩
  · exact BitVec.or_zero.symm
  · rw [generateSixthWordAll, generateSixthWordFlags]
    exact (BitVec.or_zero).symm
  · intro fits
    have high (place : Fin 24) : version.getLsbD (8 + place) = false :=
      (BitField.toNat_lt_two_pow_iff version 8).mp fits _ (by omega)
    rw [unpacked, word_eq_iff, low_generateSixthWordAll, low_getSixthWord,
      ← type_bits_iff eventType]
    simp only [generateSixthWordAll_place, getLsbD_getSixthWord, high, setEventType_apply,
      true_and, Bool.false_or]
    constructor
    · intro places place
      have below := place.isLt
      have isType : 2 ≤ (place : Nat) + 2 ∧ (place : Nat) + 2 < 6 := by omega
      have bit := places ⟨place + 2, by omega⟩
      have notFirst : (⟨place + 2, by omega⟩ : Fin 24) ≠ 0 := by
        rw [ne_eq, Fin.ext_iff]
        exact Nat.succ_ne_zero _
      have notSecond : (⟨place + 2, by omega⟩ : Fin 24) ≠ 1 := by
        rw [ne_eq, Fin.ext_iff]
        show (place : Nat) + 2 ≠ 1
        omega
      rw [decide_eq_false notFirst, decide_eq_false notSecond, decide_eq_true isType,
        if_pos isType] at bit
      simpa using bit
    · intro bits place
      by_cases isType : 2 ≤ place.val ∧ place.val < 6
      · have bit := bits ⟨place - 2, by omega⟩
        have notFirst : place ≠ 0 := by
          intro same
          rw [same] at isType
          exact absurd isType.1 (by decide)
        have notSecond : place ≠ 1 := by
          intro same
          rw [same] at isType
          exact absurd isType.1 (by decide)
        rw [decide_eq_false notFirst, decide_eq_false notSecond, decide_eq_true isType,
          if_pos isType, ← bit]
        simp
      · rw [decide_eq_false isType, if_neg isType, flags]
        by_cases second : place = 1
        · subst second
          simp
        · by_cases first : place = 0
          · subst first
            simp
          · simp [first, second]

/-- A type that is too large for the word but clamped to one that fits. -/
theorem generateSixthWord_forms_sample :
    generateSixthWordType 4 true false 31 =
      ({ version := 4, bitInfo := setEventType (flags true false) 31 } :
        HeaderV4).getSixthWord :=
  ((generateSixthWord_forms (fun _ => false) 4 true false 31).2.2.2.2 (by decide)).mpr (by decide)

end

end Dift.Evio.Block
