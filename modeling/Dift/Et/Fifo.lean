import Dift.Wire.HostOrder

/-!
Owns the ET system as `getBuffers` sees it through the fifo interface, whose
code is not part of the repository: entries that are created once and filled
with fresh events again and again, events with a data area, a length and six
control words, and a reader that entries are handed to. Events are named by
the call that made them and their place in the entry, so that two calls never
give the same event.
-/

namespace Dift.Et

open Dift.Foundation
open Dift.Wire

/-- One buffer of an entry. Control word 1 says whether the data is valid,
word 5 counts packets. -/
structure Event where
  data : Mem
  length : UInt64
  control : Nat → Int32

def Event.hasData (event : Event) : Bool :=
  event.control 1 ≠ 0

/-- An event: the number of the `et_fifo_newEntry` call and the index of the
event. -/
abbrev EventId := Nat × Nat

/-- The ET system. `filled` counts the calls of `et_fifo_newEntry`, `fill` is
the last one on each entry. -/
structure Fifo where
  events : EventId → Event
  fill : Nat → Nat
  created : Nat
  filled : Nat
  reader : List (List Event)

/-- What the ET system was opened with, and what it leaves open: the contents
of a fresh event besides its length and flag, and when it has no memory or
refuses a call. -/
structure Opened where
  bufSize : UInt64
  bufIds : List Int
  freshData : EventId → Mem
  freshControl : EventId → Nat → Int32
  noMemory : Nat → Bool
  refusal : Nat → Option String

namespace Opened

variable (opened : Opened)

def idCount : Nat := opened.bufIds.length

/-- A fresh event has length 0 and no valid data. -/
def fresh (id : EventId) : Event where
  data := opened.freshData id
  length := 0
  control := Function.update (opened.freshControl id) 1 0

end Opened

namespace Fifo

/-- Before anything was created. -/
def initial (opened : Opened) : Fifo where
  events := opened.fresh
  fill := fun _ => 0
  created := 0
  filled := 0
  reader := []

/-- `et_fifo_entryCreate`, `none` for a null pointer. -/
def entryCreate (opened : Opened) (fifo : Fifo) : Option (Nat × Fifo) :=
  if opened.noMemory fifo.created then none
  else some (fifo.created, { fifo with created := fifo.created + 1 })

/-- `et_fifo_newEntry`: fresh events for the entry. -/
def newEntry (opened : Opened) (fifo : Fifo) (entry : Nat) : Except String Fifo :=
  match opened.refusal fifo.filled with
  | some message => .error message
  | none => .ok { fifo with
      events := fun id => if id.1 = fifo.filled then opened.fresh id else fifo.events id
      fill := Function.update fifo.fill entry fifo.filled
      filled := fifo.filled + 1 }

/-- `et_fifo_getBufs`. -/
def bufs (fifo : Fifo) (entry index : Nat) : EventId := (fifo.fill entry, index)

/-- The events of an entry. -/
def contents (opened : Opened) (fifo : Fifo) (entry : Nat) : List Event :=
  (List.range opened.idCount).map fun index => fifo.events (fifo.bufs entry index)

/-- `et_fifo_allHaveData`. -/
def allHaveData (opened : Opened) (fifo : Fifo) (entry : Nat) : Bool :=
  (fifo.contents opened entry).all Event.hasData

/-- `et_fifo_putEntry`. -/
def putEntry (opened : Opened) (fifo : Fifo) (entry : Nat) : Fifo :=
  { fifo with reader := fifo.reader ++ [fifo.contents opened entry] }

/-- Change one event. -/
def modify (fifo : Fifo) (id : EventId) (change : Event → Event) : Fifo :=
  { fifo with events := Function.update fifo.events id (change (fifo.events id)) }

/-- Copy bytes into the data area. -/
def copyData (fifo : Fifo) (id : EventId) (offset : Nat) (bytes : List UInt8) : Fifo :=
  fifo.modify id fun event => { event with data := event.data.write offset bytes }

/-- `et_event_setlength`. -/
def setLength (fifo : Fifo) (id : EventId) (length : UInt64) : Fifo :=
  fifo.modify id fun event => { event with length := length }

/-- `et_event_setcontrol` with all six words. -/
def setControl (fifo : Fifo) (id : EventId) (control : Nat → Int32) : Fifo :=
  fifo.modify id fun event => { event with control := control }

/-- `et_fifo_setHasData`. -/
def setHasData (fifo : Fifo) (id : EventId) (hasData : Int32) : Fifo :=
  fifo.modify id fun event => { event with control := Function.update event.control 1 hasData }

end Fifo

end Dift.Et
