import Dift.Assemble.Sessions
import Dift.Et.GetBuffers

/-!
Owns the conservation of entries in `getBuffers`. The invariant says that the
entries are divided among the free ones and the map, that exactly those in the
map are out (filled and not put back), and that the arrays are those of the
current tick as long as it is in the map. Every round keeps it, unless a packet
comes whose tick is that of the packet before and not in the map any more: then
the loop goes on with the arrays of an entry it has put back.
-/

namespace Dift.Et

open Dift.Foundation
open Dift.Wire
open Dift.Assemble

/-! ### The log -/

/-- What an operation does to an entry: fill it or put it back. -/
def Operation.call (entry : Nat) : Operation → Option Bool
  | .newEntry other => if other = entry then some true else none
  | .putEntry other => if other = entry then some false else none
  | .write _ _ _ => none

/-- The last call on the entry filled it. -/
def Out (log : List Operation) (entry : Nat) : Prop :=
  (log.filterMap (Operation.call entry)).getLast? = some true

/-- Between two puts of an entry it was filled again. -/
def PutOnce (log : List Operation) : Prop :=
  ∀ entry first second third,
    log = first ++ .putEntry entry :: second ++ .putEntry entry :: third →
      .newEntry entry ∈ second

/-- Every write was to an event of an entry in the map. -/
def WritesMapped (log : List Operation) : Prop :=
  ∀ target event mapped, .write target event mapped ∈ log → event.1 ∈ mapped

theorem out_newEntry (log : List Operation) (entry other : Nat) :
    Out (log ++ [.newEntry entry]) other ↔ other = entry ∨ Out log other := by
  by_cases same : entry = other
  · simp [Out, Operation.call, same]
  · simp [Out, Operation.call, same, Ne.symm same]

theorem out_putEntry (log : List Operation) (entry other : Nat) :
    Out (log ++ [.putEntry entry]) other ↔ other ≠ entry ∧ Out log other := by
  by_cases same : entry = other
  · simp [Out, Operation.call, same]
  · simp [Out, Operation.call, same, Ne.symm same]

theorem out_write (log : List Operation) (target : Target) (event : EventId) (mapped : List Nat)
    (entry : Nat) : Out (log ++ [.write target event mapped]) entry ↔ Out log entry := by
  simp [Out, Operation.call]

/-- An entry that is out was filled after any put. -/
theorem Out.mem_of_put {first second : List Operation} {entry : Nat}
    (out : Out (first ++ .putEntry entry :: second) entry) : .newEntry entry ∈ second := by
  have put : Operation.call entry (.putEntry entry) = some false := by simp [Operation.call]
  rw [Out, List.filterMap_append, List.filterMap_cons_some put, List.getLast?_append_cons] at out
  cases calls : second.filterMap (Operation.call entry) with
  | nil =>
      rw [calls] at out
      cases out
  | cons call rest =>
      rw [calls, List.getLast?_cons_cons, ← calls] at out
      rcases List.mem_filterMap.mp (List.mem_of_getLast? out) with ⟨operation, member, isCall⟩
      cases operation with
      | newEntry other =>
          simp only [Operation.call, Option.ite_none_right_eq_some] at isCall
          rwa [isCall.1] at member
      | putEntry other => simp [Operation.call] at isCall
      | write target event mapped => cases isCall

/-- Other operations do not matter. -/
theorem PutOnce.append {log : List Operation} (once : PutOnce log) {operation : Operation}
    (other : ∀ entry, operation ≠ .putEntry entry) : PutOnce (log ++ [operation]) := by
  intro entry first second third split
  rcases List.eq_nil_or_concat third with rfl | ⟨rest, last, rfl⟩
  · have ends := List.append_inj' split rfl
    exact absurd (List.singleton_inj.mp ends.2) (other entry)
  · rw [List.concat_eq_append, ← List.cons_append, ← List.append_assoc] at split
    exact once entry first second rest (List.append_inj' split rfl).1

/-- An entry that is out can be put back. -/
theorem PutOnce.append_put {log : List Operation} (once : PutOnce log) {entry : Nat}
    (out : Out log entry) : PutOnce (log ++ [.putEntry entry]) := by
  intro other first second third split
  rcases List.eq_nil_or_concat third with rfl | ⟨rest, last, rfl⟩
  · have ends := List.append_inj' split rfl
    obtain rfl : entry = other := by
      injection List.singleton_inj.mp ends.2
    rw [ends.1] at out
    exact out.mem_of_put
  · rw [List.concat_eq_append, ← List.cons_append, ← List.append_assoc] at split
    exact once other first second rest (List.append_inj' split rfl).1

theorem WritesMapped.append {log : List Operation} (writes : WritesMapped log)
    {operation : Operation}
    (fine : ∀ target event mapped, operation = .write target event mapped → event.1 ∈ mapped) :
    WritesMapped (log ++ [operation]) := by
  intro target event mapped member
  rcases List.mem_append.mp member with old | new
  · exact writes target event mapped old
  · exact fine target event mapped (List.mem_singleton.mp new).symm

/-! ### The invariant -/

/-- The entries in the map. -/
def State.values (state : State) : List Nat := state.buffers.map Prod.snd

/-- Who has which entry: all entries are free or in the map, once; a tick has
one entry; different entries in the map were filled by different calls; and
those in the map are the ones that are out. -/
structure Owned (state : State) : Prop where
  entries : (state.freeEntries ++ state.values).Perm (List.range state.fifo.created)
  ticks : (state.buffers.map Prod.fst).Nodup
  fills : state.mapped.Nodup
  filled : ∀ fill ∈ state.mapped, fill < state.fifo.filled
  outs : ∀ entry, Out state.log entry ↔ entry ∈ state.values
  puts : PutOnce state.log
  writes : WritesMapped state.log

/-- The arrays are those of an entry. -/
def State.Holds (state : State) (entry : Nat) : Prop :=
  state.entry = entry ∧ ∃ cache, state.cache = some cache ∧ cache.events = state.fifo.bufs entry

/-- The arrays are those of the last tick while it is in the map. -/
def Current (state : State) : Prop :=
  ∀ entry, (state.prevTick, entry) ∈ state.buffers → state.Holds entry

theorem Owned.nodup {state : State} (owned : Owned state) :
    (state.freeEntries ++ state.values).Nodup :=
  owned.entries.nodup_iff.mpr List.nodup_range

/-- A tick has one entry. -/
theorem Owned.unique {state : State} (owned : Owned state) {tick : UInt64} {first second : Nat}
    (one : (tick, first) ∈ state.buffers) (other : (tick, second) ∈ state.buffers) :
    first = second := by
  have same := List.inj_on_of_nodup_map owned.ticks one other rfl
  exact (Prod.mk.inj same).2

/-- What the invariant depends on. -/
theorem Owned.congr {before after : State} (owned : Owned before)
    (free : after.freeEntries = before.freeEntries) (buffers : after.buffers = before.buffers)
    (created : after.fifo.created = before.fifo.created)
    (filled : after.fifo.filled = before.fifo.filled) (fill : after.fifo.fill = before.fifo.fill)
    (log : after.log = before.log) : Owned after := by
  have values : after.values = before.values := by rw [State.values, buffers, State.values]
  have mapped : after.mapped = before.mapped := by
    rw [State.mapped, buffers, fill, State.mapped]
  exact {
    entries := by
      rw [free, values, created]
      exact owned.entries
    ticks := by
      rw [buffers]
      exact owned.ticks
    fills := by
      rw [mapped]
      exact owned.fills
    filled := by
      rw [mapped, filled]
      exact owned.filled
    outs := by
      rw [log, values]
      exact owned.outs
    puts := by
      rw [log]
      exact owned.puts
    writes := by
      rw [log]
      exact owned.writes }

/-- One write to an event of an entry in the map. -/
theorem Owned.log_write {state : State} (owned : Owned state) (target : Target)
    {event : EventId} (inside : event.1 ∈ state.mapped) :
    Owned { state with log := state.log ++ [.write target event state.mapped] } where
  entries := owned.entries
  ticks := owned.ticks
  fills := owned.fills
  filled := owned.filled
  outs := fun entry => (out_write _ _ _ _ _).trans (owned.outs entry)
  puts := owned.puts.append fun entry impossible => by cases impossible
  writes := owned.writes.append fun _ _ _ isWrite => by
    injection isWrite with _ sameEvent sameMapped
    rw [← sameEvent, ← sameMapped]
    exact inside

/-- Writes to an event of an entry in the map keep the invariant. -/
theorem Owned.write {before after : State} (owned : Owned before) {event : EventId}
    (inside : event.1 ∈ before.mapped) (targets : List Target)
    (log : after.log = before.log ++ targets.map fun target => .write target event before.mapped)
    (free : after.freeEntries = before.freeEntries) (buffers : after.buffers = before.buffers)
    (created : after.fifo.created = before.fifo.created)
    (filled : after.fifo.filled = before.fifo.filled)
    (fill : after.fifo.fill = before.fifo.fill) : Owned after := by
  have logged : Owned { before with log := before.log ++
      (targets.map fun target => .write target event before.mapped) } := by
    clear log
    induction targets using List.reverseRecOn with
    | nil => exact owned.congr rfl rfl rfl rfl rfl (List.append_nil _)
    | append_singleton rest target inductionHypothesis =>
        refine (inductionHypothesis.log_write target inside).congr rfl rfl rfl rfl rfl ?_
        simp only [List.map_append, List.append_assoc]
        rfl
  exact logged.congr free buffers created filled fill log

/-- A key that occurs once can be split off. -/
theorem perm_filter_key {α β : Type*} [DecidableEq α] {pairs : List (α × β)} {key : α} {value : β}
    (nodup : (pairs.map Prod.fst).Nodup) (member : (key, value) ∈ pairs) :
    pairs.Perm ((key, value) :: pairs.filter fun pair => pair.1 ≠ key) := by
  induction pairs with
  | nil => cases member
  | cons pair rest inductionHypothesis =>
      rcases List.nodup_cons.mp nodup with ⟨fresh, restNodup⟩
      rcases List.mem_cons.mp member with rfl | later
      · have kept : rest.filter (fun pair => pair.1 ≠ key) = rest := by
          apply List.filter_eq_self.mpr
          intro other inRest
          have inKeys : other.1 ∈ rest.map Prod.fst := List.mem_map_of_mem inRest
          exact decide_eq_true fun same => fresh (same ▸ inKeys)
        rw [List.filter_cons_of_neg (by simp), kept]
      · have different : pair.1 ≠ key := by
          intro same
          have inKeys : key ∈ rest.map Prod.fst := List.mem_map_of_mem later
          exact fresh (same ▸ inKeys)
        rw [List.filter_cons_of_pos (by simpa using different)]
        exact ((inductionHypothesis restNodup later).cons pair).trans (List.Perm.swap _ _ _)

namespace GetBuffers

variable {setting : Setting}

/-- Taking a tick out of the map and putting its entry back. -/
theorem retire_owned {state : State} (owned : Owned state) {tick : UInt64} {entry : Nat}
    (inMap : (tick, entry) ∈ state.buffers) : Owned (retire setting state tick entry) := by
  have split := perm_filter_key owned.ticks inMap
  have values : state.values.Perm (entry :: (retire setting state tick entry).values) :=
    split.map Prod.snd
  have mapped : state.mapped.Perm
      (state.fifo.fill entry :: (retire setting state tick entry).mapped) :=
    split.map fun pair : UInt64 × Nat => state.fifo.fill pair.2
  have nodup := (values.append_left state.freeEntries).nodup_iff.mp owned.nodup
  have notFree : entry ∉ state.freeEntries := fun free =>
    (List.nodup_append.mp nodup).2.2 entry free entry (List.mem_cons_self) rfl
  have notLeft : entry ∉ (retire setting state tick entry).values :=
    (List.nodup_cons.mp nodup.of_append_right).1
  have freed : (retire setting state tick entry).freeEntries = entry :: state.freeEntries :=
    if_neg notFree
  exact {
    entries := by
      rw [freed]
      refine List.Perm.trans ?_ owned.entries
      refine List.Perm.trans ?_ (values.append_left _).symm
      exact List.perm_middle.symm
    ticks := by
      have keys := (split.map Prod.fst).nodup_iff.mp owned.ticks
      exact (List.nodup_cons.mp keys).2
    fills := (List.nodup_cons.mp (mapped.nodup_iff.mp owned.fills)).2
    filled := fun fill member =>
      owned.filled fill (mapped.symm.subset (List.mem_cons_of_mem _ member))
    outs := by
      intro other
      apply (out_putEntry _ _ _).trans
      rw [owned.outs other, values.mem_iff, List.mem_cons]
      constructor
      · intro both
        rcases both with ⟨different, same | left⟩
        · exact absurd same different
        · exact left
      · intro left
        refine ⟨?_, .inr left⟩
        rintro rfl
        exact notLeft left
    puts := by
      refine owned.puts.append_put ((owned.outs entry).mpr ?_)
      exact values.symm.subset List.mem_cons_self
    writes := owned.writes.append fun _ _ _ impossible => by cases impossible }

theorem retire_current {state : State} (current : Current state) (tick : UInt64) (entry : Nat) :
    Current (retire setting state tick entry) := by
  intro other inMap
  exact current other (List.mem_of_mem_filter inMap)

/-- Statistics do not matter. -/
theorem owned_stats {state : State} (owned : Owned state)
    (stats : Option (Int → PacketRecvStats)) : Owned { state with stats := stats } :=
  owned.congr rfl rfl rfl rfl rfl rfl

theorem takeEntry_owned {before after : State} (owned : Owned before) {entry : Nat}
    (taken : takeEntry setting before = .ok (entry, after)) :
    (entry :: (after.freeEntries ++ before.values)).Perm (List.range after.fifo.created) ∧
      after.buffers = before.buffers ∧ after.fifo.fill = before.fifo.fill ∧
      after.fifo.filled = before.fifo.filled ∧ after.log = before.log ∧
      after.prevTick = before.prevTick := by
  unfold takeEntry at taken
  split at taken
  case h_1 noEntry =>
    split at taken
    case h_1 => cases taken
    case h_2 created fifo isCreated =>
      rcases Prod.mk.inj (Except.ok.inj taken) with ⟨rfl, rfl⟩
      unfold Fifo.entryCreate at isCreated
      split at isCreated
      case isTrue => cases isCreated
      case isFalse =>
        rcases Prod.mk.inj (Option.some.inj isCreated) with ⟨rfl, rfl⟩
        refine ⟨?_, rfl, rfl, rfl, rfl, rfl⟩
        have all := owned.entries
        rw [List.range_succ]
        exact ((List.perm_append_singleton _ _).symm).trans (all.append_right _)
  case h_2 isEntry =>
    rcases Prod.mk.inj (Except.ok.inj taken) with ⟨rfl, rfl⟩
    refine ⟨?_, rfl, rfl, rfl, rfl, rfl⟩
    have member := setting.beginMem _ isEntry
    exact ((List.perm_cons_erase member).symm.append_right _).trans owned.entries

/-- The first packet of a tick: its entry goes into the map. -/
theorem openTick_owned {before after : State} (owned : Owned before) {tick : UInt64}
    (absent : tick ∉ before.buffers.map Prod.fst)
    (opens : openTick setting before tick = .ok after) :
    Owned after ∧ (tick, after.entry) ∈ after.buffers ∧ after.Holds after.entry := by
  unfold openTick at opens
  split at opens
  case h_1 => cases opens
  case h_2 entry taken isTaken =>
    rcases takeEntry_owned owned isTaken with ⟨all, buffers, fill, filled, log, -⟩
    split at opens
    case h_1 => cases opens
    case h_2 fifo isNew =>
      unfold Fifo.newEntry at isNew
      split at isNew
      case h_1 => cases isNew
      case h_2 =>
        cases isNew
        cases opens
        have notIn : entry ∉ before.values := by
          have nodup := all.nodup_iff.mpr List.nodup_range
          exact fun member => (List.nodup_cons.mp nodup).1 (List.mem_append_right _ member)
        have mapped : (before.buffers.map fun pair =>
            Function.update taken.fifo.fill entry taken.fifo.filled pair.2) = before.mapped := by
          apply List.map_congr_left
          intro pair member
          rw [fill]
          refine Function.update_of_ne ?_ _ _
          rintro rfl
          exact notIn (List.mem_map_of_mem member)
        refine ⟨?_, List.mem_cons_self, rfl, _, rfl, rfl⟩
        exact {
          entries := by
            apply List.perm_middle.trans
            rw [buffers]
            exact all
          ticks := by
            show (tick :: taken.buffers.map Prod.fst).Nodup
            rw [buffers]
            exact List.nodup_cons.mpr ⟨absent, owned.ticks⟩
          fills := by
            show (Function.update taken.fifo.fill entry taken.fifo.filled entry ::
              taken.buffers.map fun pair =>
                Function.update taken.fifo.fill entry taken.fifo.filled pair.2).Nodup
            rw [buffers, mapped, Function.update_self, filled]
            exact List.nodup_cons.mpr
              ⟨fun member => lt_irrefl _ (owned.filled _ member), owned.fills⟩
          filled := by
            show ∀ fill ∈ Function.update taken.fifo.fill entry taken.fifo.filled entry ::
              (taken.buffers.map fun pair =>
                Function.update taken.fifo.fill entry taken.fifo.filled pair.2), _
            rw [buffers, mapped, Function.update_self, filled]
            intro one member
            rcases List.mem_cons.mp member with rfl | old
            · exact Nat.lt_succ_self _
            · exact Nat.lt_succ_of_lt (owned.filled one old)
          outs := by
            intro other
            show Out (taken.log ++ [.newEntry entry]) other ↔
              other ∈ entry :: taken.buffers.map Prod.snd
            rw [out_newEntry, List.mem_cons, log, buffers, owned.outs other]
            rfl
          puts := by
            show PutOnce (taken.log ++ [.newEntry entry])
            rw [log]
            exact owned.puts.append fun _ impossible => by cases impossible
          writes := by
            show WritesMapped (taken.log ++ [.newEntry entry])
            rw [log]
            exact owned.writes.append fun _ _ _ impossible => by cases impossible }

/-- A packet can be assigned to the arrays when its tick is a new one or in the
map. -/
theorem selectEntry_owned {before after : State} (owned : Owned before)
    (current : Current before) {tick : UInt64}
    (fresh : tick ≠ before.prevTick ∨ tick ∈ before.buffers.map Prod.fst)
    (selects : selectEntry setting before tick = .ok after) :
    Owned after ∧ (tick, after.entry) ∈ after.buffers ∧ after.Holds after.entry := by
  unfold selectEntry at selects
  split at selects
  case isTrue different =>
    split at selects
    case h_1 entry found =>
      cases selects
      refine ⟨owned.congr rfl rfl rfl rfl rfl rfl, ?_, rfl, _, rfl, rfl⟩
      rcases List.lookup_eq_some_iff.mp found with ⟨first, second, split, -⟩
      show (tick, entry) ∈ before.buffers
      simp [split]
    case h_2 absent =>
      refine openTick_owned owned (fun member => ?_) selects
      rcases List.mem_map.mp member with ⟨pair, inMap, isTick⟩
      have different := List.lookup_eq_none_iff.mp absent pair inMap
      simp [isTick] at different
  case isFalse same =>
    cases selects
    rcases not_ne_iff.mp same with rfl
    rcases List.mem_map.mp (fresh.resolve_left (fun ne => ne rfl)) with ⟨pair, member, isTick⟩
    rcases pair with ⟨tick, entry⟩
    obtain rfl : tick = before.prevTick := isTick
    rcases current entry member with ⟨isEntry, holds⟩
    refine ⟨owned, ?_, rfl, ?_⟩
    · rw [isEntry]
      exact member
    · rw [isEntry]
      exact holds

/-- Everything that writing a packet does. -/
theorem writePacket_cases {before after : State} {index : Nat} {header : ReFields}
    {bytesRead : Nat} {total : UInt64} {event : EventId}
    (writes : writePacket setting before index header bytesRead = some (after, total, event)) :
    ∃ cache, before.cache = some cache ∧ event = cache.events index ∧
      total = cache.bytesWritten index + UInt64.ofNat (bytesRead - reHeaderBytes) ∧
      after = { before with
        fifo := ((before.fifo.copyData event header.offset.toNat
          (before.packetBuffer.read reHeaderBytes (bytesRead - reHeaderBytes))).setLength event
            total).setControl event (Function.update (cache.controls index) 5
              ((cache.packetCnts index).toInt64 + 1).toInt32)
        cache := some { cache with
          packetCnts := Function.update cache.packetCnts index
            ((cache.packetCnts index).toInt64 + 1).toInt32
          bytesWritten := Function.update cache.bytesWritten index total }
        log := before.log ++ [.write .payload event before.mapped,
          .write .length event before.mapped, .write .control event before.mapped] } := by
  unfold writePacket at writes
  split at writes
  case h_1 => cases writes
  case h_2 cache isCache =>
    split at writes
    case isTrue => cases writes
    case isFalse =>
      rcases by simpa only [Option.some_inj, Prod.mk.injEq] using writes with
        ⟨isAfter, isTotal, isEvent⟩
      subst isTotal isEvent
      exact ⟨cache, isCache, rfl, rfl, isAfter.symm⟩

theorem writePacket_owned {before after : State} (owned : Owned before)
    (holds : before.Holds before.entry) (inMap : before.entry ∈ before.values)
    {index : Nat} {header : ReFields} {bytesRead : Nat} {total : UInt64} {event : EventId}
    (writes : writePacket setting before index header bytesRead = some (after, total, event)) :
    Owned after ∧ event.1 ∈ after.mapped := by
  rcases holds with ⟨-, held, isHeld, events⟩
  rcases writePacket_cases writes with ⟨cache, isCache, rfl, rfl, rfl⟩
  obtain rfl : held = cache := Option.some.inj (isHeld.symm.trans isCache)
  rcases List.mem_map.mp inMap with ⟨pair, member, isEntry⟩
  have inside : (held.events index).1 ∈ before.mapped := by
    rw [events]
    exact isEntry ▸ List.mem_map_of_mem member
  exact ⟨owned.write inside [.payload, .length, .control] rfl rfl rfl rfl rfl rfl, inside⟩

/-- The map and the arrays' entry stay what they are. -/
theorem writePacket_keeps {before after : State} (holds : before.Holds before.entry)
    {index : Nat} {header : ReFields} {bytesRead : Nat} {total : UInt64} {event : EventId}
    (writes : writePacket setting before index header bytesRead = some (after, total, event)) :
    after.buffers = before.buffers ∧ after.prevTick = before.prevTick ∧
      after.entry = before.entry ∧ after.Holds before.entry := by
  rcases holds with ⟨-, held, isHeld, events⟩
  rcases writePacket_cases writes with ⟨cache, isCache, rfl, rfl, rfl⟩
  obtain rfl : held = cache := Option.some.inj (isHeld.symm.trans isCache)
  exact ⟨rfl, rfl, rfl, rfl, _, rfl, events⟩

theorem flagEvent_owned {state : State} (owned : Owned state) {event : EventId}
    (inside : event.1 ∈ state.mapped) : Owned (flagEvent state event) :=
  owned.write inside [.control] rfl rfl rfl rfl rfl rfl

/-- Nothing that `finishEvent` does to the map is more than taking the tick
out. -/
theorem finishEvent_owned {state : State} (owned : Owned state) {tick : UInt64}
    (inMap : (tick, state.entry) ∈ state.buffers) {event : EventId}
    (inside : event.1 ∈ state.mapped) : Owned (finishEvent setting state tick event) := by
  have flagged := flagEvent_owned owned inside
  unfold finishEvent
  simp only
  split
  · exact retire_owned (owned_stats flagged _) inMap
  · exact flagged

theorem finishEvent_current {state : State} (current : Current state) (tick : UInt64)
    (event : EventId) : Current (finishEvent setting state tick event) := by
  unfold finishEvent
  simp only
  split
  · apply retire_current
    exact current
  · exact current

/-- The house cleaning of entries that are in the map. -/
theorem clean_owned {state : State} (owned : Owned state) (current : Current state)
    (event : EventId) :
    Owned (clean setting state event) ∧ Current (clean setting state event) := by
  have general : ∀ (pairs : List (UInt64 × Nat)) (state : State), Owned state → Current state →
      (pairs.map Prod.fst).Nodup → (∀ pair ∈ pairs, pair ∈ state.buffers) →
      Owned (pairs.foldl (cleanOne setting event) state) ∧
        Current (pairs.foldl (cleanOne setting event) state) := by
    intro pairs
    induction pairs with
    | nil => exact fun state owned current _ _ => ⟨owned, current⟩
    | cons pair rest inductionHypothesis =>
        intro state owned current nodup inMap
        rcases List.nodup_cons.mp nodup with ⟨fresh, restNodup⟩
        rw [List.foldl_cons]
        unfold cleanOne
        split
        · refine inductionHypothesis _ (retire_owned (owned_stats owned _) (inMap pair (by simp)))
            (retire_current current _ _) restNodup fun other member => ?_
          refine List.mem_filter.mpr ⟨inMap other (by simp [member]), decide_eq_true ?_⟩
          intro same
          have inKeys : other.1 ∈ rest.map Prod.fst := List.mem_map_of_mem member
          exact fresh (same ▸ inKeys)
        · exact inductionHypothesis _ owned current restNodup
            fun other member => inMap other (by simp [member])
  have order := setting.orderPerm state.buffers
  exact general _ _ owned current ((order.map Prod.fst).nodup_iff.mpr owned.ticks)
    fun pair member => order.subset member

/-! ### Runs -/

/-- Between rounds. -/
structure Conserving (state : State) : Prop where
  owned : Owned state
  current : Current state

/-- The tick of the packet is not that of the packet before, or still in the
map. This is asked of the packets of declared sources. -/
def Fresh (setting : Setting) (state : State) (packet : Packet) : Prop :=
  (bufIdReverseMap setting.opened.bufIds packet.dataId.toNat).isSome →
    packet.tick ≠ state.prevTick ∨ packet.tick ∈ state.buffers.map Prod.fst

/-- The entry of the current tick is selected. -/
structure Selected (state : State) : Prop where
  owned : Owned state
  inMap : (state.prevTick, state.entry) ∈ state.buffers
  holds : state.Holds state.entry

theorem selected_of_selectEntry {before after : State} (conserving : Conserving before)
    {tick : UInt64} (fresh : tick ≠ before.prevTick ∨ tick ∈ before.buffers.map Prod.fst)
    (selects : selectEntry setting before tick = .ok after) :
    Selected { after with prevTick := tick } := by
  rcases selectEntry_owned conserving.owned conserving.current fresh
    selects with ⟨owned, inMap, holds⟩
  exact ⟨owned.congr rfl rfl rfl rfl rfl rfl, inMap, holds⟩

/-- Writing a packet keeps the selection. -/
theorem writePacket_selected {before after : State} (selected : Selected before)
    {index : Nat} {header : ReFields} {bytesRead : Nat} {total : UInt64} {event : EventId}
    (writes : writePacket setting before index header bytesRead = some (after, total, event)) :
    Selected after ∧ event.1 ∈ after.mapped ∧ after.prevTick = before.prevTick := by
  rcases writePacket_owned selected.owned selected.holds
    (List.mem_map_of_mem selected.inMap) writes with ⟨owned, inside⟩
  rcases writePacket_keeps selected.holds writes with ⟨buffers, prevTick, entry, holds⟩
  refine ⟨⟨owned, ?_, ?_⟩, inside, prevTick⟩
  · rw [buffers, prevTick, entry]
    exact selected.inMap
  · rw [entry]
    exact holds

theorem Selected.current {state : State} (selected : Selected state) : Current state := by
  intro entry inMap
  rw [selected.owned.unique inMap selected.inMap]
  exact selected.holds

theorem store_conserving {state : State} (selected : Selected state) {index : Nat}
    {header : ReFields} (tick : state.prevTick = header.tick) {bytesRead : Nat} :
    (∀ after, store setting state index header bytesRead = .again after → Conserving after) ∧
      ∀ stopped, store setting state index header bytesRead = .leave stopped →
        PutOnce stopped.state.log ∧ WritesMapped stopped.state.log := by
  unfold store
  split
  case isTrue =>
    refine ⟨nofun, fun stopped isStopped => ?_⟩
    cases isStopped
    exact ⟨selected.owned.puts, selected.owned.writes⟩
  case isFalse =>
    split
    case h_1 =>
      refine ⟨nofun, fun stopped isStopped => ?_⟩
      cases isStopped
      exact ⟨selected.owned.puts, selected.owned.writes⟩
    case h_2 written total event writes =>
      refine ⟨fun after isAfter => ?_, nofun⟩
      cases isAfter
      rcases writePacket_selected selected writes with ⟨written, inside, sameTick⟩
      have inMap := written.inMap
      rw [sameTick, tick] at inMap
      split
      · rcases clean_owned (finishEvent_owned written.owned inMap inside)
          (finishEvent_current written.current header.tick event) event with ⟨owned, current⟩
        exact ⟨owned, current⟩
      · rcases clean_owned written.owned written.current event with ⟨owned, current⟩
        exact ⟨owned, current⟩

theorem accept_conserving {state : State} (conserving : Conserving state) {index : Nat}
    {header : ReFields}
    (fresh : header.tick ≠ state.prevTick ∨ header.tick ∈ state.buffers.map Prod.fst)
    {bytesRead : Nat} :
    (∀ after, accept setting state index header bytesRead = .again after → Conserving after) ∧
      ∀ stopped, accept setting state index header bytesRead = .leave stopped →
        PutOnce stopped.state.log ∧ WritesMapped stopped.state.log := by
  unfold accept
  split
  case h_1 =>
    refine ⟨nofun, fun stopped isStopped => ?_⟩
    cases isStopped
    exact ⟨conserving.owned.puts, conserving.owned.writes⟩
  case h_2 after selects =>
    exact store_conserving (selected_of_selectEntry conserving fresh selects) rfl

end GetBuffers

/-! ### Packets -/

/-- A version 2 packet that fits the packet buffer. -/
structure Proper (packet : Packet) : Prop where
  versionNonneg : 0 ≤ packet.version
  versionLt : packet.version < 16
  fits : reHeaderBytes + packet.payload.length ≤ packetBufSize

namespace GetBuffers

variable {setting : Setting}

/-- The state with a packet in the packet buffer. -/
def received (state : State) (packet : Packet) : State :=
  { state with packetBuffer := state.packetBuffer.write 0 packet.bytes }

/-- A proper packet is received as its fields and payload. -/
theorem round_packet {packet : Packet} (state : State) (proper : Proper packet) :
    round setting state packet.recv =
      match bufIdReverseMap setting.opened.bufIds packet.dataId.toNat with
      | none =>
          if state.invalidPkts + 1 > 100 then
            .leave ⟨.threw "received over 100 pkts w/ wrong data id", received state packet⟩
          else .again { received state packet with invalidPkts := state.invalidPkts + 1 }
      | some index =>
          accept setting (received state packet) index (Complete.fields packet)
            (reHeaderBytes + packet.payload.length) := by
  have total : packet.bytes.length = reHeaderBytes + packet.payload.length := by
    simp [Packet.bytes]
  have whole : packet.bytes.take packetBufSize = packet.bytes := by
    apply List.take_of_length_le
    rw [total]
    exact proper.fits
  have headerHeld :=
    (Memory.read_split (Memory.read_write_self state.packetBuffer 0 packet.bytes)).1
  rw [reHeader_length] at headerHeld
  simp only [Packet.recv, round, whole, total]
  rw [parseReHeader_reHeader headerHeld proper.versionNonneg proper.versionLt]
  rfl

theorem round_conserving {packet : Packet} (proper : Proper packet) {state : State}
    (conserving : Conserving state) (fresh : Fresh setting state packet) :
    (∀ after, round setting state packet.recv = .again after → Conserving after) ∧
      ∀ stopped, round setting state packet.recv = .leave stopped →
        PutOnce stopped.state.log ∧ WritesMapped stopped.state.log := by
  have owned := conserving.owned
  have same : Conserving (received state packet) :=
    ⟨owned.congr rfl rfl rfl rfl rfl rfl, conserving.current⟩
  rw [round_packet state proper]
  split
  case h_1 =>
    split
    case isTrue =>
      refine ⟨nofun, fun stopped isStopped => ?_⟩
      cases isStopped
      exact ⟨owned.puts, owned.writes⟩
    case isFalse =>
      refine ⟨fun after isAfter => ?_, nofun⟩
      cases isAfter
      exact ⟨owned.congr rfl rfl rfl rfl rfl rfl, conserving.current⟩
  case h_2 index declared =>
    refine accept_conserving same (fresh ?_)
    rw [declared]
    rfl

theorem start_conserving {packetBuffer : Mem} {state : State}
    (starts : start setting packetBuffer = .ok state) : Conserving state := by
  unfold start at starts
  split at starts
  case isTrue => cases starts
  case isFalse =>
    split at starts
    case isTrue => cases starts
    case isFalse =>
      cases starts
      refine ⟨⟨?_, List.nodup_nil, List.nodup_nil, nofun, ?_, ?_, nofun⟩, nofun⟩
      · rw [State.values, List.map_nil, List.append_nil]
      · exact fun entry => ⟨nofun, nofun⟩
      · intro entry first second third split
        simp at split

end GetBuffers

/-! ### The result -/

/-- Entries are conserved: every one obtained is either free or in the map,
once, no entry was put twice for one filling, and no event was written whose
entry was not in the map. -/
structure Conserved (state : State) : Prop where
  entries : ∀ entry < state.fifo.created,
    Xor (entry ∈ state.freeEntries) (entry ∈ state.values)
  once : (state.freeEntries ++ state.values).Nodup
  puts : PutOnce state.log
  writes : WritesMapped state.log

theorem Owned.conserved {state : State} (owned : Owned state) : Conserved state where
  entries := by
    intro entry below
    have member := owned.entries.symm.subset (List.mem_range.mpr below)
    have apart := (List.nodup_append.mp owned.nodup).2.2
    rcases List.mem_append.mp member with free | inMap
    · exact .inl ⟨free, fun inMap => apart entry free entry inMap rfl⟩
    · exact .inr ⟨inMap, fun free => apart entry free entry inMap rfl⟩
  once := owned.nodup
  puts := owned.puts
  writes := owned.writes

/-- What holds after some packets, whether the loop waits for the next one or
an exception has ended it. -/
structure ConservedAfter (setting : Setting) (begun : State) (packets : List Packet) : Prop where
  waiting : ∀ state, getBuffers setting begun (packets.map Packet.recv) = .waiting state →
    Conserved state
  left : ∀ stopped rest,
    getBuffers setting begun (packets.map Packet.recv) = .left stopped rest →
    PutOnce stopped.state.log ∧ WritesMapped stopped.state.log

/-- A run that keeps the invariant, by induction over the packets read. -/
theorem getBuffers_conserving {setting : Setting} {begun : State}
    (starts : GetBuffers.Conserving begun) {packets : List Packet}
    (proper : ∀ packet ∈ packets, Proper packet)
    (fresh : ∀ before packet after state, packets = before ++ packet :: after →
      getBuffers setting begun (before.map Packet.recv) = .waiting state →
      GetBuffers.Fresh setting state packet) :
    (∀ state, getBuffers setting begun (packets.map Packet.recv) = .waiting state →
      GetBuffers.Conserving state) ∧
    ∀ stopped rest, getBuffers setting begun (packets.map Packet.recv) = .left stopped rest →
      PutOnce stopped.state.log ∧ WritesMapped stopped.state.log := by
  induction packets using List.reverseRecOn with
  | nil =>
      refine ⟨fun state reached => ?_, nofun⟩
      cases reached
      exact starts
  | append_singleton earlier packet inductionHypothesis =>
      rcases inductionHypothesis (fun one member => proper one (by simp [member]))
        (fun before one after state split => fresh before one (after ++ [packet]) state
          (by simp [split])) with ⟨waits, ended⟩
      rw [List.map_append]
      cases result : getBuffers setting begun (earlier.map Packet.recv) with
      | left stopped rest =>
          have stays : getBuffers setting begun
              (earlier.map Packet.recv ++ [packet].map Packet.recv) = _ :=
            feed_append_of_left result _
          rw [stays]
          refine ⟨nofun, fun other unread same => ?_⟩
          rcases Fed.left.inj same with ⟨rfl, -⟩
          exact ended stopped rest result
      | waiting state =>
          have goesOn : getBuffers setting begun
              (earlier.map Packet.recv ++ [packet].map Packet.recv) = _ :=
            feed_append_of_waiting result _
          rcases GetBuffers.round_conserving (proper packet (by simp))
            (waits state result) (fresh earlier packet [] state rfl result) with ⟨again, leave⟩
          rw [goesOn, List.map_singleton]
          cases step : GetBuffers.round setting state packet.recv with
          | again next =>
              rw [feed_cons_of_again step]
              refine ⟨fun after same => ?_, nofun⟩
              cases same
              exact again next step
          | leave stopped =>
              rw [feed_cons_of_leave step]
              refine ⟨nofun, fun other unread same => ?_⟩
              rcases Fed.left.inj same with ⟨rfl, -⟩
              exact leave stopped step

/-- In every run in which no packet finds the tick of the packet before gone
from the map, entries are conserved all the time. -/
theorem getBuffers_conserves {setting : Setting} {packetBuffer : Mem} {begun : State}
    (starts : GetBuffers.start setting packetBuffer = .ok begun) {packets : List Packet}
    (proper : ∀ packet ∈ packets, Proper packet)
    (fresh : ∀ before packet after state, packets = before ++ packet :: after →
      getBuffers setting begun (before.map Packet.recv) = .waiting state →
      GetBuffers.Fresh setting state packet) :
    ∀ before after, packets = before ++ after → ConservedAfter setting begun before := by
  rintro before after rfl
  have someProper : ∀ packet ∈ before, Proper packet := fun packet member =>
    proper packet (List.mem_append_left _ member)
  have runs := getBuffers_conserving (GetBuffers.start_conserving starts) someProper
    fun earlier packet later state split =>
      fresh earlier packet (later ++ after) state (by simp [split])
  exact ⟨fun state reached => (runs.1 state reached).owned.conserved, runs.2⟩

/-- One source, number 7, and events of 100 bytes. -/
def sampleSetting : Setting where
  host := .little
  opened := {
    bufSize := 100
    bufIds := [7]
    freshData := fun _ _ => 0
    freshControl := fun _ _ => 0
    noMemory := fun _ => false
    refusal := fun _ => none }
  tickPrescale := 1
  takenStats := none
  begin := fun free => free.headD 0
  order := id
  beginMem := fun free isEntry => by
    cases free with
    | nil => exact absurd rfl isEntry
    | cons entry rest => exact List.mem_cons_self
  orderPerm := fun _ => List.Perm.refl _

/-- A whole buffer of one byte. -/
def samplePacket (tick : UInt64) : Packet where
  version := 2
  reserved := 0
  tick := tick
  dataId := 7
  offset := 0
  length := 1
  payload := [1]

theorem proper_samplePacket (tick : UInt64) : Proper (samplePacket tick) where
  versionNonneg := show (0 : Int) ≤ 2 by decide
  versionLt := show (2 : Int) < 16 by decide
  fits := show 21 ≤ 9100 by decide

/-- The state before the first packet. -/
def sampleBegun : State where
  fifo := { Fifo.initial sampleSetting.opened with created := 10 }
  packetBuffer := fun _ => 0
  prevTick := 0xFFFFFFFFFFFFFFFF
  biggestTick := 0
  invalidPkts := 0
  buffers := []
  freeEntries := List.range 10
  entry := 9
  cache := none
  stats := none
  log := []

/-- What a run has logged. -/
def Fed.log : Fed State Stopped Recv → List Operation
  | .waiting state => state.log
  | .left stopped _ => stopped.state.log

theorem ConservedAfter.puts {setting : Setting} {begun : State} {packets : List Packet}
    (conserved : ConservedAfter setting begun packets) :
    PutOnce (Fed.log (getBuffers setting begun (packets.map Packet.recv))) := by
  cases result : getBuffers setting begun (packets.map Packet.recv) with
  | waiting state => exact (conserved.waiting state result).puts
  | left stopped rest => exact (conserved.left stopped rest result).1

theorem start_sampleSetting :
    GetBuffers.start sampleSetting (fun _ => 0) = .ok sampleBegun := rfl

/-- Two ticks, one packet each. -/
theorem getBuffers_conserves_sample :
    ConservedAfter sampleSetting sampleBegun [samplePacket 5, samplePacket 6] := by
  have proper : ∀ packet ∈ [samplePacket 5, samplePacket 6], Proper packet := by
    intro packet member
    rcases List.mem_pair.mp member with rfl | rfl
    · exact proper_samplePacket 5
    · exact proper_samplePacket 6
  refine getBuffers_conserves start_sampleSetting proper ?_ [samplePacket 5, samplePacket 6] [] rfl
  intro before packet after state split reached _
  left
  cases before with
  | nil =>
      obtain rfl : samplePacket 5 = packet := (List.cons.inj split).1
      cases reached
      decide
  | cons first rest =>
      rcases List.cons.inj split with ⟨rfl, tail⟩
      cases rest with
      | cons second others => simp at tail
      | nil =>
          obtain rfl : samplePacket 6 = packet := (List.cons.inj tail).1
          have tick : (match getBuffers sampleSetting sampleBegun
              ([samplePacket 5].map Packet.recv) with
            | .waiting state => state.prevTick
            | .left _ _ => 0) = 5 := by
            decide +kernel
          rw [reached] at tick
          simp only at tick
          rw [tick]
          decide

/-- A second copy of a whole buffer. -/
theorem not_conserved_sample :
    GetBuffers.start sampleSetting (fun _ => 0) = .ok sampleBegun ∧
      (∀ packet ∈ [samplePacket 5, samplePacket 5], Proper packet) ∧
      ¬ ConservedAfter sampleSetting sampleBegun [samplePacket 5, samplePacket 5] := by
  refine ⟨start_sampleSetting, ?_, fun conserved => ?_⟩
  · intro packet member
    rcases List.mem_pair.mp member with rfl | rfl <;> exact proper_samplePacket 5
  · have log : Fed.log (getBuffers sampleSetting sampleBegun
        ([samplePacket 5, samplePacket 5].map Packet.recv)) =
        ([.newEntry 0, .write .payload (0, 0) [0], .write .length (0, 0) [0],
          .write .control (0, 0) [0], .write .control (0, 0) [0]] : List Operation) ++
        Operation.putEntry 0 ::
        ([.write .payload (0, 0) [], .write .length (0, 0) [], .write .control (0, 0) [],
          .write .control (0, 0) []] : List Operation) ++ Operation.putEntry 0 :: [] := by
      decide +kernel
    have again := conserved.puts 0 _ _ _ log
    exact absurd again (by decide)

end Dift.Et
