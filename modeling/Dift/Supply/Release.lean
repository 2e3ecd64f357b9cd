import Mathlib.Tactic
import Mathlib.Data.Int.Interval

/-!
Owns `release` of `Supplier` and `SupplierN`: which sequence an item stands
for, and the bookkeeping that gives sequences back to the producer in order
although they are released in any order. The invariant ties the three counters
to the set of released sequences. The ring itself is not modelled here, and
`SupplyItem` only as far as `release` reads it.
-/

namespace Dift.Supply

/-! ### The bookkeeping -/

/-- The bookkeeping of one consumer, with its gating sequence. -/
structure Books where
  lastSequenceReleased : Int
  maxSequence : Int
  between : UInt32
  sequence : Int
deriving DecidableEq, Repr

namespace Books

/-- As the constructors leave it. -/
def initial : Books := ⟨-1, -1, 0, -1⟩

/-- Take note of a released sequence. -/
def note (books : Books) (seq : Int) : Books :=
  if seq > books.maxSequence then
    { books with
      between :=
        if books.maxSequence > books.lastSequenceReleased then books.between + 1
        else books.between
      maxSequence := seq }
  else if seq > books.lastSequenceReleased then { books with between := books.between + 1 }
  else books

/-- Once everything between last and max is there, release it all. -/
def settle (books : Books) : Books :=
  if books.maxSequence - books.lastSequenceReleased - 1 = (books.between.toNat : Int) then
    { books with
      sequence := books.maxSequence
      lastSequenceReleased := books.maxSequence
      between := 0 }
  else books

/-- The section of `release` that the mutex protects. -/
def release (books : Books) (seq : Int) : Books :=
  (books.note seq).settle

end Books

/-! ### The items and the two suppliers -/

/-- What `release` reads of an item. -/
structure SupplyItem where
  producerSequence : Int
  consumerSequence : Nat → Int
  fromConsumerGet : Bool

/-- The sequence that a release of the item by consumer `id` is about. -/
def SupplyItem.releasedSequence (item : SupplyItem) (id : Nat) : Int :=
  if item.fromConsumerGet then item.consumerSequence id else item.producerSequence

/-- What a release does to a consumer's bookkeeping. `lastUser` is what
`decrementCounter` returns. -/
def releaseItem (orderedRelease lastUser : Bool) (books : Books) (seq : Int) : Books :=
  if lastUser then
    if orderedRelease then { books with sequence := seq } else books.release seq
  else books

structure Supplier where
  orderedRelease : Bool
  books : Books

def Supplier.initial (orderedRelease : Bool) : Supplier := ⟨orderedRelease, .initial⟩

def Supplier.release (supplier : Supplier) (item : SupplyItem) (lastUser : Bool) : Supplier :=
  { supplier with
    books := releaseItem supplier.orderedRelease lastUser supplier.books
      (item.releasedSequence 0) }

/-- One set of books for every consumer. -/
structure SupplierN where
  orderedRelease : Bool
  consumerCount : Nat
  books : Nat → Books

def SupplierN.initial (orderedRelease : Bool) (consumerCount : Nat) : SupplierN :=
  ⟨orderedRelease, consumerCount, fun _ => .initial⟩

/-- `none` is the exception for an identifier that is too large. -/
def SupplierN.release (supplier : SupplierN) (item : SupplyItem) (id : Nat) (lastUser : Bool) :
    Option SupplierN :=
  if id > supplier.consumerCount - 1 then none
  else
    some { supplier with
      books := Function.update supplier.books id
        (releaseItem supplier.orderedRelease lastUser (supplier.books id)
          (item.releasedSequence id)) }

/-! ### The invariant -/

namespace Books

/-- The released sequences strictly between two others. -/
def inBetween (released : Finset Int) (low high : Int) : Finset Int :=
  released.filter fun seq => low < seq ∧ seq < high

theorem mem_inBetween {released : Finset Int} {low high seq : Int} :
    seq ∈ inBetween released low high ↔ seq ∈ released ∧ low < seq ∧ seq < high :=
  Finset.mem_filter

theorem top_notMem_inBetween (released : Finset Int) (low high : Int) :
    high ∉ inBetween released low high := by
  simp [mem_inBetween]

theorem inBetween_eq_empty (released : Finset Int) {low high : Int} (le : high ≤ low) :
    inBetween released low high = ∅ := by
  apply Finset.eq_empty_of_forall_notMem
  intro seq member
  rcases mem_inBetween.mp member with ⟨-, above, below⟩
  omega

/-- The books keep account of the released sequences: what is given back is a
gapless beginning, the highest one is known, the others are counted, and what
is not given back has a gap. -/
structure Account (released : Finset Int) (books : Books) : Prop where
  nonneg : ∀ seq ∈ released, 0 ≤ seq
  atLeast : -1 ≤ books.lastSequenceReleased
  ordered : books.lastSequenceReleased ≤ books.maxSequence
  gating : books.sequence = books.lastSequenceReleased
  below : ∀ seq, 0 ≤ seq → seq ≤ books.lastSequenceReleased → seq ∈ released
  top : ∀ seq ∈ released, seq ≤ books.maxSequence
  highest : books.lastSequenceReleased < books.maxSequence → books.maxSequence ∈ released
  count : books.between.toNat =
    (inBetween released books.lastSequenceReleased books.maxSequence).card
  gap : books.lastSequenceReleased < books.maxSequence →
    ∃ seq, books.lastSequenceReleased < seq ∧ seq < books.maxSequence ∧ seq ∉ released

theorem account_initial : Account ∅ initial where
  nonneg := by simp
  atLeast := le_rfl
  ordered := le_rfl
  gating := rfl
  below := by
    intro seq nonneg low
    simp only [initial] at low
    omega
  top := by simp
  highest := by simp [initial]
  count := by
    rw [inBetween, Finset.filter_empty]
    rfl
  gap := by simp [initial]

/-- The account between `note` and `settle`: the highest sequence is not given
back yet, and there may be no gap. -/
structure Noted (released : Finset Int) (books : Books) : Prop where
  nonneg : ∀ seq ∈ released, 0 ≤ seq
  atLeast : -1 ≤ books.lastSequenceReleased
  ordered : books.lastSequenceReleased < books.maxSequence
  gating : books.sequence = books.lastSequenceReleased
  below : ∀ seq, 0 ≤ seq → seq ≤ books.lastSequenceReleased → seq ∈ released
  top : ∀ seq ∈ released, seq ≤ books.maxSequence
  highest : books.maxSequence ∈ released
  count : books.between.toNat =
    (inBetween released books.lastSequenceReleased books.maxSequence).card

/-- Released sequences that are not given back. -/
def pending (released : Finset Int) (books : Books) : Finset Int :=
  released.filter fun seq => books.lastSequenceReleased < seq

private theorem toNat_add_one {counter : UInt32} (small : counter.toNat + 1 < 2 ^ 32) :
    (counter + 1).toNat = counter.toNat + 1 := by
  rw [UInt32.toNat_add, UInt32.toNat_one, Nat.mod_eq_of_lt small]

/-- The highest sequence and those counted are pending. -/
theorem Account.count_lt {released : Finset Int} {books : Books} (account : Account released books)
    (waiting : books.lastSequenceReleased < books.maxSequence) :
    books.between.toNat < (pending released books).card := by
  have notIn := top_notMem_inBetween released books.lastSequenceReleased books.maxSequence
  have inPending : insert books.maxSequence
      (inBetween released books.lastSequenceReleased books.maxSequence) ⊆
      pending released books := by
    intro one member
    rcases Finset.mem_insert.mp member with rfl | old
    · exact Finset.mem_filter.mpr ⟨account.highest waiting, waiting⟩
    · rcases mem_inBetween.mp old with ⟨inReleased, low, -⟩
      exact Finset.mem_filter.mpr ⟨inReleased, low⟩
  have bound := Finset.card_le_card inPending
  rwa [Finset.card_insert_of_notMem notIn, ← account.count] at bound

section Note

variable {released : Finset Int} {books : Books} {seq : Int}
variable (account : Account released books) (nonneg : 0 ≤ seq) (fresh : seq ∉ released)

include account nonneg fresh

/-- A sequence that is released for the first time was not given back. -/
theorem Account.last_lt : books.lastSequenceReleased < seq := by
  by_contra low
  exact fresh (account.below seq nonneg (by omega))

private theorem Account.nonneg_insert : ∀ one ∈ insert seq released, 0 ≤ one := by
  intro one member
  rcases Finset.mem_insert.mp member with rfl | old
  · exact nonneg
  · exact account.nonneg one old

omit nonneg fresh in
/-- Under a new highest sequence lie those from before, and the old highest one
if it was not given back. -/
theorem Account.inBetween_above (above : books.maxSequence < seq) :
    inBetween (insert seq released) books.lastSequenceReleased seq =
      if books.lastSequenceReleased < books.maxSequence then
        insert books.maxSequence
          (inBetween released books.lastSequenceReleased books.maxSequence)
      else ∅ := by
  have ordered := account.ordered
  ext one
  rw [mem_inBetween, Finset.mem_insert]
  split_ifs with waiting
  · rw [Finset.mem_insert, mem_inBetween]
    constructor
    · intro between
      rcases between with ⟨rfl | old, low, high⟩
      · omega
      · have most := account.top one old
        by_cases same : one = books.maxSequence
        · exact .inl same
        · exact .inr ⟨old, low, by omega⟩
    · intro either
      rcases either with rfl | ⟨old, low, high⟩
      · exact ⟨.inr (account.highest waiting), waiting, above⟩
      · exact ⟨.inr old, low, by omega⟩
  · refine iff_of_false ?_ (Finset.notMem_empty one)
    intro between
    rcases between with ⟨rfl | old, low, high⟩
    · omega
    · have most := account.top one old
      omega

omit nonneg fresh in
/-- A new highest sequence; the old one counts from now on if it was not given
back. -/
theorem Account.count_above (above : books.maxSequence < seq)
    (few : (pending released books).card < 2 ^ 32) :
    (books.note seq).between.toNat =
      (inBetween (insert seq released) books.lastSequenceReleased seq).card := by
  have count := account.count
  rw [account.inBetween_above above]
  by_cases waiting : books.lastSequenceReleased < books.maxSequence
  · have notIn := top_notMem_inBetween released books.lastSequenceReleased books.maxSequence
    have bound := account.count_lt waiting
    simp only [note, if_pos above, gt_iff_lt, if_pos waiting]
    rw [Finset.card_insert_of_notMem notIn, ← count, toNat_add_one (by omega)]
  · rw [inBetween_eq_empty released (not_lt.mp waiting)] at count
    simp only [note, if_pos above, gt_iff_lt, if_neg waiting]
    exact count

/-- A new highest sequence. -/
theorem Account.note_above (above : books.maxSequence < seq)
    (few : (pending released books).card < 2 ^ 32) :
    Noted (insert seq released) (books.note seq) := by
  have same : (books.note seq).lastSequenceReleased = books.lastSequenceReleased ∧
      (books.note seq).maxSequence = seq ∧ (books.note seq).sequence = books.sequence := by
    simp [note, above]
  rcases same with ⟨sameLast, sameMax, sameGate⟩
  refine ⟨account.nonneg_insert nonneg fresh, ?_, ?_, ?_, ?_, ?_, ?_, ?_⟩
  · rw [sameLast]
    exact account.atLeast
  · rw [sameLast, sameMax]
    exact account.last_lt nonneg fresh
  · rw [sameGate, sameLast]
    exact account.gating
  · rw [sameLast]
    exact fun one oneNonneg low => Finset.mem_insert_of_mem (account.below one oneNonneg low)
  · rw [sameMax]
    intro one member
    rcases Finset.mem_insert.mp member with rfl | old
    · exact le_rfl
    · have most := account.top one old
      omega
  · rw [sameMax]
    exact Finset.mem_insert_self _ _
  · rw [account.count_above above few, sameLast, sameMax]

/-- A sequence in between. -/
theorem Account.note_between (between : ¬ books.maxSequence < seq)
    (few : (pending released books).card < 2 ^ 32) :
    Noted (insert seq released) (books.note seq) := by
  have low := account.last_lt nonneg fresh
  have waiting : books.lastSequenceReleased < books.maxSequence := by omega
  have below : seq < books.maxSequence := by
    have different : seq ≠ books.maxSequence := by
      rintro rfl
      exact fresh (account.highest waiting)
    omega
  have next : inBetween (insert seq released) books.lastSequenceReleased books.maxSequence =
      insert seq (inBetween released books.lastSequenceReleased books.maxSequence) := by
    rw [inBetween, Finset.filter_insert, if_pos ⟨low, below⟩]
    rfl
  have notIn : seq ∉ inBetween released books.lastSequenceReleased books.maxSequence := by
    intro member
    exact fresh (mem_inBetween.mp member).1
  have bound := account.count_lt waiting
  have noted : books.note seq = { books with between := books.between + 1 } := by
    rw [note, if_neg (by simpa using between), if_pos low]
  rw [noted]
  refine ⟨account.nonneg_insert nonneg fresh, account.atLeast, waiting, account.gating,
    ?_, ?_, ?_, ?_⟩
  · exact fun one oneNonneg oneLow =>
      Finset.mem_insert_of_mem (account.below one oneNonneg oneLow)
  · intro one member
    rcases Finset.mem_insert.mp member with rfl | old
    · exact below.le
    · exact account.top one old
  · exact Finset.mem_insert_of_mem (account.highest waiting)
  · show (books.between + 1).toNat = _
    rw [next, Finset.card_insert_of_notMem notIn, ← account.count, toNat_add_one (by omega)]

end Note

/-- `settle` gives everything back exactly when there is no gap. -/
theorem Noted.settle {released : Finset Int} {books : Books} (noted : Noted released books) :
    Account released books.settle := by
  have ordered := noted.ordered
  have inside : inBetween released books.lastSequenceReleased books.maxSequence ⊆
      Finset.Ioo books.lastSequenceReleased books.maxSequence := by
    intro one member
    exact Finset.mem_Ioo.mpr (mem_inBetween.mp member).2
  have size : (Finset.Ioo books.lastSequenceReleased books.maxSequence).card =
      (books.maxSequence - books.lastSequenceReleased - 1).toNat := Int.card_Ioo _ _
  unfold Books.settle
  split_ifs with full
  · have all : inBetween released books.lastSequenceReleased books.maxSequence =
        Finset.Ioo books.lastSequenceReleased books.maxSequence := by
      apply Finset.eq_of_subset_of_card_le inside
      rw [size, full, Int.toNat_natCast, noted.count]
    refine ⟨noted.nonneg, ?_, le_rfl, rfl, ?_, noted.top, ?_, ?_, ?_⟩
    · have atLeast := noted.atLeast
      show -1 ≤ books.maxSequence
      omega
    · intro seq nonneg low
      by_cases given : seq ≤ books.lastSequenceReleased
      · exact noted.below seq nonneg given
      · by_cases highest : seq = books.maxSequence
        · exact highest ▸ noted.highest
        · have member : seq ∈ inBetween released books.lastSequenceReleased
              books.maxSequence := by
            rw [all, Finset.mem_Ioo]
            simp only at low
            omega
          exact (mem_inBetween.mp member).1
    · intro impossible
      exact absurd impossible (lt_irrefl _)
    · show (0 : UInt32).toNat = (inBetween released books.maxSequence books.maxSequence).card
      rw [inBetween_eq_empty released le_rfl]
      rfl
    · intro impossible
      exact absurd impossible (lt_irrefl _)
  · refine ⟨noted.nonneg, noted.atLeast, ordered.le, noted.gating, noted.below, noted.top,
      fun _ => noted.highest, noted.count, fun _ => ?_⟩
    by_contra noGap
    have all : Finset.Ioo books.lastSequenceReleased books.maxSequence ⊆
        inBetween released books.lastSequenceReleased books.maxSequence := by
      intro one member
      rcases Finset.mem_Ioo.mp member with ⟨low, high⟩
      refine mem_inBetween.mpr ⟨?_, low, high⟩
      by_contra missing
      exact noGap ⟨one, low, high, missing⟩
    have same := congrArg Finset.card (Finset.Subset.antisymm inside all)
    rw [size, ← noted.count] at same
    omega

/-- One release keeps the account. -/
theorem Account.release {released : Finset Int} {books : Books}
    (account : Account released books) {seq : Int} (nonneg : 0 ≤ seq) (fresh : seq ∉ released)
    (few : (pending released books).card < 2 ^ 32) :
    Account (insert seq released) (books.release seq) := by
  by_cases above : books.maxSequence < seq
  · exact (account.note_above nonneg fresh above few).settle
  · exact (account.note_between nonneg fresh above few).settle

/-- No release takes back what was given back. -/
theorem sequence_le_release {released : Finset Int} {books : Books}
    (account : Account released books) {seq : Int} (nonneg : 0 ≤ seq) (fresh : seq ∉ released) :
    books.sequence ≤ (books.release seq).sequence := by
  have ordered := account.ordered
  have gating := account.gating
  have low := account.last_lt nonneg fresh
  unfold Books.release Books.settle Books.note
  split_ifs <;> simp only <;> omega

/-- When exactly the sequences up to `top` are released, all are given back. -/
theorem Account.complete {released : Finset Int} {books : Books}
    (account : Account released books) {top : Int} (nonneg : 0 ≤ top)
    (all : ∀ seq, seq ∈ released ↔ 0 ≤ seq ∧ seq ≤ top) : books.sequence = top := by
  have inReleased : top ∈ released := (all top).mpr ⟨nonneg, le_rfl⟩
  have most := account.top top inReleased
  have given : books.lastSequenceReleased = books.maxSequence := by
    by_contra waiting
    have ordered := account.ordered
    have before : books.lastSequenceReleased < books.maxSequence := by omega
    rcases account.gap before with ⟨seq, low, high, missing⟩
    have atLeast := account.atLeast
    have highest := (all _).mp (account.highest before)
    exact missing ((all seq).mpr ⟨by omega, by omega⟩)
  have highest : books.maxSequence ≤ top := by
    have atLeast := account.atLeast
    have member := account.below books.maxSequence (by omega) (by omega)
    exact ((all _).mp member).2
  rw [account.gating]
  omega

/-! ### Runs -/

/-- The books after some releases. -/
def after (seqs : List Int) : Books :=
  seqs.foldl Books.release initial

theorem after_append_singleton (seqs : List Int) (seq : Int) :
    after (seqs ++ [seq]) = (after seqs).release seq := by
  simp [after]

/-- Releases of different sequences, with fewer than `2^31` outstanding at any
time. -/
structure Orderly (seqs : List Int) : Prop where
  nodup : seqs.Nodup
  nonneg : ∀ seq ∈ seqs, 0 ≤ seq
  few : ∀ before rest, seqs = before ++ rest →
    (pending before.toFinset (after before)).card < 2 ^ 31

theorem Orderly.of_append {before rest : List Int} (orderly : Orderly (before ++ rest)) :
    Orderly before where
  nodup := orderly.nodup.of_append_left
  nonneg := fun seq member => orderly.nonneg seq (List.mem_append_left _ member)
  few := by
    rintro first second rfl
    exact orderly.few first (second ++ rest) (List.append_assoc _ _ _)

/-- Fewer than `2^31` releases in all are orderly. -/
theorem Orderly.of_length {seqs : List Int} (nodup : seqs.Nodup) (nonneg : ∀ seq ∈ seqs, 0 ≤ seq)
    (short : seqs.length < 2 ^ 31) : Orderly seqs where
  nodup := nodup
  nonneg := nonneg
  few := by
    rintro before rest rfl
    calc (pending before.toFinset (after before)).card
        ≤ before.toFinset.card := Finset.card_filter_le _ _
      _ ≤ before.length := List.toFinset_card_le _
      _ ≤ (before ++ rest).length := by simp
      _ < 2 ^ 31 := short

/-- The account of a whole run. -/
theorem Orderly.account {seqs : List Int} (orderly : Orderly seqs) :
    Account seqs.toFinset (after seqs) := by
  induction seqs using List.reverseRecOn with
  | nil => exact account_initial
  | append_singleton before seq inductionHypothesis =>
      have account := inductionHypothesis orderly.of_append
      have few := orderly.few before [seq] rfl
      have fresh : seq ∉ before.toFinset := by
        have apart := List.nodup_append.mp orderly.nodup
        intro member
        exact apart.2.2 seq (List.mem_toFinset.mp member) seq (by simp) rfl
      have next := account.release (orderly.nonneg seq (by simp)) fresh (by omega)
      rw [after_append_singleton]
      have same : (before ++ [seq]).toFinset = insert seq before.toFinset := by
        ext one
        simp
      rwa [same]

/-- The gating sequence never decreases along a run. -/
theorem Orderly.sequence_mono {before rest : List Int} (orderly : Orderly (before ++ rest)) :
    (after before).sequence ≤ (after (before ++ rest)).sequence := by
  induction rest using List.reverseRecOn with
  | nil => simp
  | append_singleton middle seq inductionHypothesis =>
      rw [← List.append_assoc] at orderly ⊢
      have shorter := orderly.of_append
      apply le_trans (inductionHypothesis shorter)
      rw [after_append_singleton]
      apply sequence_le_release shorter.account (orderly.nonneg seq (by simp))
      intro member
      have apart := List.nodup_append.mp orderly.nodup
      exact apart.2.2 seq (List.mem_toFinset.mp member) seq (by simp) rfl

/-- What the books promise about the released sequences. -/
structure Correct (released : List Int) (books : Books) : Prop where
  between : books.between.toNat =
    (inBetween released.toFinset books.lastSequenceReleased books.maxSequence).card
  gating : books.sequence = books.lastSequenceReleased
  below : ∀ seq, 0 ≤ seq → seq ≤ books.sequence → seq ∈ released
  complete : ∀ top, 0 ≤ top → (∀ seq, seq ∈ released ↔ 0 ≤ seq ∧ seq ≤ top) →
    books.sequence = top

theorem Orderly.correct {seqs : List Int} (orderly : Orderly seqs) :
    Correct seqs (after seqs) where
  between := orderly.account.count
  gating := orderly.account.gating
  below := by
    intro seq nonneg low
    rw [orderly.account.gating] at low
    exact List.mem_toFinset.mp (orderly.account.below seq nonneg low)
  complete := fun top nonneg all =>
    orderly.account.complete nonneg fun seq => by rw [List.mem_toFinset, all]

end Books

/-! ### Both suppliers -/

/-- A supplier without ordered release after its only consumer's items were
released by their last user. -/
def Supplier.after (items : List SupplyItem) : Supplier :=
  items.foldl (fun supplier item => supplier.release item true) (.initial false)

/-- The sequences that some items stand for. -/
def sequences (items : List SupplyItem) : List Int :=
  items.map fun item => item.releasedSequence 0

theorem sequences_append (first second : List SupplyItem) :
    sequences (first ++ second) = sequences first ++ sequences second := by
  simp [sequences]

theorem Supplier.after_eq (items : List SupplyItem) :
    Supplier.after items = ⟨false, Books.after (sequences items)⟩ := by
  induction items using List.reverseRecOn with
  | nil => rfl
  | append_singleton before item inductionHypothesis =>
      have last : Supplier.after (before ++ [item]) =
          (Supplier.after before).release item true := by
        simp [Supplier.after]
      have single : sequences [item] = [item.releasedSequence 0] := rfl
      rw [last, inductionHypothesis, sequences_append, single, Books.after_append_singleton]
      rfl

/-- One call of `release` for several consumers. -/
structure ReleaseCall where
  item : SupplyItem
  id : Nat

/-- A supplier of several consumers without ordered release after some calls by
the last users. -/
def SupplierN.after (consumerCount : Nat) (calls : List ReleaseCall) : Option SupplierN :=
  calls.foldlM (fun supplier call => supplier.release call.item call.id true)
    (.initial false consumerCount)

/-- The sequences that one consumer releases. -/
def sequencesOf (id : Nat) (calls : List ReleaseCall) : List Int :=
  (calls.filter fun call => call.id = id).map fun call => call.item.releasedSequence id

theorem sequencesOf_append (id : Nat) (first second : List ReleaseCall) :
    sequencesOf id (first ++ second) = sequencesOf id first ++ sequencesOf id second := by
  simp [sequencesOf]

/-- Every consumer has books of its own. -/
theorem SupplierN.after_eq {consumerCount : Nat} {calls : List ReleaseCall}
    (known : ∀ call ∈ calls, call.id < consumerCount) :
    SupplierN.after consumerCount calls =
      some ⟨false, consumerCount, fun id => Books.after (sequencesOf id calls)⟩ := by
  induction calls using List.reverseRecOn with
  | nil => rfl
  | append_singleton before call inductionHypothesis =>
      have earlier := inductionHypothesis fun one member => known one (by simp [member])
      have small := known call (by simp)
      have last : SupplierN.after consumerCount (before ++ [call]) =
          (SupplierN.after consumerCount before).bind fun supplier =>
            supplier.release call.item call.id true := by
        simp [SupplierN.after, Option.bind_eq_bind]
      rw [last, earlier, Option.bind_some, SupplierN.release,
        if_neg (show ¬ call.id > consumerCount - 1 by omega)]
      congr 2
      funext id
      rw [sequencesOf_append]
      by_cases own : id = call.id
      · subst own
        rw [Function.update_self]
        have single : sequencesOf call.id [call] = [call.item.releasedSequence call.id] := by
          simp [sequencesOf]
        rw [single, Books.after_append_singleton]
        rfl
      · rw [Function.update_of_ne own]
        have noCalls : sequencesOf id [call] = [] := by
          simp [sequencesOf, Ne.symm own]
        rw [noCalls, List.append_nil]

/-- Out-of-order release bookkeeping, for the single supplier and for every
consumer of the other: after each release of different sequences in any order,
`between` counts the released sequences strictly between last and max, the
gating sequence is the last one given back and has not decreased, everything up
to it has been released, and nothing stays stuck. -/
theorem release_bookkeeping :
    (∀ items, Books.Orderly (sequences items) → ∀ before rest, items = before ++ rest →
      Books.Correct (sequences before) (Supplier.after before).books ∧
      (Supplier.after before).books.sequence ≤ (Supplier.after items).books.sequence) ∧
    ∀ consumerCount calls, (∀ call ∈ calls, call.id < consumerCount) →
      ∀ id, Books.Orderly (sequencesOf id calls) → ∀ before rest, calls = before ++ rest →
        ∃ earlier later, SupplierN.after consumerCount before = some earlier ∧
          SupplierN.after consumerCount calls = some later ∧
          Books.Correct (sequencesOf id before) (earlier.books id) ∧
          (earlier.books id).sequence ≤ (later.books id).sequence := by
  constructor
  · rintro items orderly before rest rfl
    rw [sequences_append] at orderly
    rw [Supplier.after_eq, Supplier.after_eq, sequences_append]
    exact ⟨orderly.of_append.correct, orderly.sequence_mono⟩
  · rintro consumerCount calls known id orderly before rest rfl
    rw [sequencesOf_append] at orderly
    refine ⟨_, _, SupplierN.after_eq fun call member => known call (by simp [member]),
      SupplierN.after_eq known, orderly.of_append.correct, ?_⟩
    show _ ≤ (Books.after (sequencesOf id (before ++ rest))).sequence
    rw [sequencesOf_append]
    exact orderly.sequence_mono

/-- The sequences 2, 0 and 1 released in this order, as the producer got them. -/
def sampleItems : List SupplyItem :=
  [⟨2, fun _ => 0, false⟩, ⟨0, fun _ => 0, false⟩, ⟨1, fun _ => 0, false⟩]

theorem release_bookkeeping_sample :
    Books.Correct [2, 0] (Supplier.after (sampleItems.take 2)).books ∧
      (Supplier.after (sampleItems.take 2)).books.sequence ≤
        (Supplier.after sampleItems).books.sequence ∧
      ∃ earlier later, SupplierN.after 2 (sampleItems.map (ReleaseCall.mk · 1)) = some earlier ∧
        SupplierN.after 2 (sampleItems.map (ReleaseCall.mk · 1)) = some later ∧
        Books.Correct [2, 0, 1] (earlier.books 1) ∧
        (earlier.books 1).sequence ≤ (later.books 1).sequence := by
  have orderly : Books.Orderly [2, 0, 1] := .of_length (by decide) (by decide) (by decide)
  have first := release_bookkeeping.1 sampleItems orderly (sampleItems.take 2)
    (sampleItems.drop 2) rfl
  exact ⟨first.1, first.2, release_bookkeeping.2 2 (sampleItems.map (ReleaseCall.mk · 1))
    (by decide) 1 orderly _ [] (List.append_nil _).symm⟩

end Dift.Supply
