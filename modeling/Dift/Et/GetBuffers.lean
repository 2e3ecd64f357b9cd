import Dift.Assemble.Complete
import Dift.Et.Fifo

/-!
Owns the loop of `getBuffers`: packets of several ticks and sources are put
into ET events, one entry a tick, with the variables of the current tick kept
in arrays. Every exception and every use of uninitialised or foreign memory
ends the loop. The standard library's free choices (which free entry comes
first, in which order the map is walked) are parameters, as is everything the
ET system leaves open. A log records the calls on entries and the writes to
events, each write with the calls that filled the entries in the map at that
time. Debug output is not modelled.
-/

namespace Dift.Et

open Dift.Foundation
open Dift.Wire
open Dift.Assemble

/-! ### State -/

/-- The arguments of a call and its surroundings. `begin` gives the first free
entry, `order` the order in which the map is walked. -/
structure Setting where
  host : ByteOrder
  opened : Opened
  tickPrescale : Int
  takenStats : Option (Int → PacketRecvStats)
  begin : List Nat → Nat
  order : List (UInt64 × Nat) → List (UInt64 × Nat)
  beginMem : ∀ free, free ≠ [] → begin free ∈ free
  orderPerm : ∀ buffers, (order buffers).Perm buffers

/-- What is written into an event. -/
inductive Target where
  | payload
  | length
  | control
deriving DecidableEq, Repr

/-- What the log records. -/
inductive Operation where
  | newEntry (entry : Nat)
  | putEntry (entry : Nat)
  | write (target : Target) (event : EventId) (mapped : List Nat)
deriving DecidableEq, Repr

/-- The arrays with the values of the current tick. -/
structure Cache where
  packetCnts : Nat → Int32
  bytesWritten : Nat → UInt64
  events : Nat → EventId
  controls : Nat → Nat → Int32

/-- The variables that live across rounds. The arrays are uninitialised until
a tick was looked up. -/
structure State where
  fifo : Fifo
  packetBuffer : Mem
  prevTick : UInt64
  biggestTick : UInt64
  invalidPkts : Nat
  buffers : List (UInt64 × Nat)
  freeEntries : List Nat
  entry : Nat
  cache : Option Cache
  stats : Option (Int → PacketRecvStats)
  log : List Operation

/-- The calls that filled the entries in the map. -/
def State.mapped (state : State) : List Nat :=
  state.buffers.map fun pair => state.fifo.fill pair.2

/-- Why the loop ends. -/
inductive Reason where
  | threw (message : String)
  | undefined
deriving DecidableEq, Repr

structure Stopped where
  reason : Reason
  state : State

/-- Key to index, where a later index wins. -/
def bufIdReverseMap (bufIds : List Int) : Int → Option Nat :=
  bufIds.zipIdx.foldl (fun map pair => Function.update map pair.1 (some pair.2)) fun _ => none

/-- The `recvfrom` buffer size. -/
def packetBufSize : Nat := 9100

/-! ### One round -/

namespace GetBuffers

variable (setting : Setting)

/-- Get info for every incoming data source. -/
def load (state : State) (entry : Nat) : State :=
  { state with
    entry := entry
    cache := some {
      packetCnts := fun _ => 0
      bytesWritten := fun _ => 0
      events := state.fifo.bufs entry
      controls := fun index => (state.fifo.events (state.fifo.bufs entry index)).control } }

/-- A free entry, taken out of the set, or a new one. -/
def takeEntry (state : State) : Except Reason (Nat × State) :=
  match state.freeEntries with
  | [] =>
      match state.fifo.entryCreate setting.opened with
      | none => .error (.threw "out of memory")
      | some (entry, fifo) => .ok (entry, { state with fifo := fifo })
  | _ =>
      let entry := setting.begin state.freeEntries
      .ok (entry, { state with freeEntries := state.freeEntries.erase entry })

/-- The first packet of a tick that is not in the map. -/
def openTick (state : State) (tick : UInt64) : Except Reason State :=
  match takeEntry setting state with
  | .error reason => .error reason
  | .ok (entry, state) =>
      match state.fifo.newEntry setting.opened entry with
      | .error message => .error (.threw message)
      | .ok fifo =>
          let state := { state with
            fifo := fifo
            buffers := (tick, entry) :: state.buffers
            biggestTick := if tick > state.biggestTick then tick else state.biggestTick
            log := state.log ++ [.newEntry entry] }
          .ok (load state entry)

/-- The entry for a packet of this tick. -/
def selectEntry (state : State) (tick : UInt64) : Except Reason State :=
  if tick ≠ state.prevTick then
    match state.buffers.lookup tick with
    | some entry => .ok (load state entry)
    | none => openTick setting state tick
  else .ok state

/-- Copy the data and record length and packet count. `none` is a write outside
of the event's data area or through an uninitialised array. The new total and
the event are returned. -/
def writePacket (state : State) (index : Nat) (header : ReFields) (bytesRead : Nat) :
    Option (State × UInt64 × EventId) :=
  match state.cache with
  | none => none
  | some cache =>
      if bytesRead < reHeaderBytes ∨ header.offset.toNat + (bytesRead - reHeaderBytes) >
          setting.opened.bufSize.toNat then none
      else
        let nBytes := bytesRead - reHeaderBytes
        let event := cache.events index
        let packetCount := (cache.packetCnts index).toInt64 + 1
        let totalBytesWritten := cache.bytesWritten index + UInt64.ofNat nBytes
        let con := Function.update (cache.controls index) 5 packetCount.toInt32
        let mapped := state.mapped
        let fifo := state.fifo.copyData event header.offset.toNat
          (state.packetBuffer.read reHeaderBytes nBytes)
        let fifo := fifo.setLength event totalBytesWritten
        let fifo := fifo.setControl event con
        some ({ state with
          fifo := fifo
          cache := some { cache with
            packetCnts := Function.update cache.packetCnts index packetCount.toInt32
            bytesWritten := Function.update cache.bytesWritten index totalBytesWritten }
          log := state.log ++ [.write .payload event mapped, .write .length event mapped,
            .write .control event mapped] }, totalBytesWritten, event)

/-- The statistics of a complete entry. -/
def addAccepted (state : State) (stats : Int → PacketRecvStats) : Int → PacketRecvStats :=
  setting.opened.bufIds.zipIdx.foldl (fun stats pair =>
    let event := state.fifo.events (state.fifo.bufs state.entry pair.2)
    let old := stats pair.1
    Function.update stats pair.1 { old with
      acceptedBytes := old.acceptedBytes + event.length.toNat
      builtBuffers := old.builtBuffers + 1
      acceptedPackets := old.acceptedPackets + (event.control 5).toInt }) stats

/-- The statistics of an incomplete entry. The event that is asked is the
current one. -/
def addDiscarded (state : State) (event : EventId) (stats : Int → PacketRecvStats) :
    Int → PacketRecvStats :=
  setting.opened.bufIds.foldl (fun stats id =>
    let event := state.fifo.events event
    let old := stats id
    Function.update stats id { old with
      discardedBytes := old.discardedBytes + event.length.toNat
      discardedBuffers := old.discardedBuffers + 1
      discardedPackets := old.discardedPackets + (event.control 5).toInt }) stats

/-- Insertion into the set of free entries. -/
def insertFree (free : List Nat) (entry : Nat) : List Nat :=
  if entry ∈ free then free else entry :: free

/-- Take a tick out of the map, put its entry back into ET and make it free. -/
def retire (state : State) (tick : UInt64) (entry : Nat) : State :=
  { state with
    buffers := state.buffers.filter fun pair => pair.1 ≠ tick
    fifo := state.fifo.putEntry setting.opened entry
    freeEntries := insertFree state.freeEntries entry
    log := state.log ++ [.putEntry entry] }

/-- Store in the event that it is fully assembled. -/
def flagEvent (state : State) (event : EventId) : State :=
  { state with
    fifo := state.fifo.setHasData event 1
    log := state.log ++ [.write .control event state.mapped] }

/-- The last packet for a tick and data source, and perhaps for the tick. -/
def finishEvent (state : State) (tick : UInt64) (event : EventId) : State :=
  let state := flagEvent state event
  if state.fifo.allHaveData setting.opened state.entry then
    retire setting { state with stats := state.stats.map (addAccepted setting state) } tick
      state.entry
  else state

/-- The test of the house cleaning, in 64 bits. The product is one of `int`s in the source,
which leaves it undefined past 2^31; here it is exact for every prescale. -/
def isOld (biggestTick tik : UInt64) : Bool :=
  tik + UInt64.ofInt (4 * setting.tickPrescale) < biggestTick

/-- One turn of the house cleaning. -/
def cleanOne (event : EventId) (state : State) (pair : UInt64 × Nat) : State :=
  if isOld setting state.biggestTick pair.1 then
    retire setting { state with stats := state.stats.map (addDiscarded setting state event) }
      pair.1 pair.2
  else state

/-- The house cleaning. -/
def clean (state : State) (event : EventId) : State :=
  (setting.order state.buffers).foldl (cleanOne setting event) state

/-- From the room check to the end of the round. -/
def store (state : State) (index : Nat) (header : ReFields) (bytesRead : Nat) :
    Round State Stopped :=
  if header.length.toNat > setting.opened.bufSize.toNat then
    .leave ⟨.threw ("ET event too small, make > " ++ toString header.length ++ " bytes"), state⟩
  else
    match writePacket setting state index header bytesRead with
    | none => .leave ⟨.undefined, state⟩
    | some (state, totalBytesWritten, event) =>
        let state :=
          if totalBytesWritten.toNat ≥ header.length.toNat then
            finishEvent setting state header.tick event
          else state
        .again (clean setting state event)

/-- A packet of a declared source. -/
def accept (state : State) (index : Nat) (header : ReFields) (bytesRead : Nat) :
    Round State Stopped :=
  match selectEntry setting state header.tick with
  | .error reason => .leave ⟨reason, state⟩
  | .ok state => store setting { state with prevTick := header.tick } index header bytesRead

/-- One round of the loop. -/
def round (state : State) : Recv → Round State Stopped
  | .failed => .leave ⟨.threw "recvmsg failed", state⟩
  | .datagram bytes =>
      let state := { state with
        packetBuffer := state.packetBuffer.write 0 (bytes.take packetBufSize) }
      let header := parseReHeader setting.host state.packetBuffer 0
      match bufIdReverseMap setting.opened.bufIds header.dataId.toNat with
      | none =>
          if state.invalidPkts + 1 > 100 then
            .leave ⟨.threw "received over 100 pkts w/ wrong data id", state⟩
          else .again { state with invalidPkts := state.invalidPkts + 1 }
      | some index =>
          accept setting state index header (bytes.take packetBufSize).length

/-- What is set up before the loop: ten entries, or an exception. -/
def start (packetBuffer : Mem) : Except String State :=
  if setting.opened.idCount < 1 then
    .error "data sources were NOT specified when calling et_fifo_openProducer()"
  else if (List.range 10).any setting.opened.noMemory then .error "no memory"
  else
    .ok {
      fifo := { Fifo.initial setting.opened with created := 10 }
      packetBuffer := packetBuffer
      prevTick := 0xFFFFFFFFFFFFFFFF
      biggestTick := 0
      invalidPkts := 0
      buffers := []
      freeEntries := List.range 10
      entry := 9
      cache := none
      stats := setting.takenStats
      log := [] }

end GetBuffers

/-- The packets read so far, by a loop that never returns on its own. -/
def getBuffers (setting : Setting) (start : State) (socket : List Recv) :
    Fed State Stopped Recv :=
  feed (GetBuffers.round setting) start socket

end Dift.Et
