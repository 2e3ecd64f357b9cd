import Dift.Packetize.Socket
import Dift.Wire.Codecs

/-!
Owns the second packetizer, `ersap_grpc_packetize.hpp`: its own header writers
and `sendPacketizedBuf`, which sends generated data out of a staging buffer on
the stack. The writers leave the reserved bytes alone, so that the headers hold
what was in memory there. They are those of `ejfat_packetize.hpp` exactly when
it was zero, and two calls of the sender send the same headers exactly when
their staging buffers agree there.
-/

namespace Dift.Packetize.Grpc

open Dift.Foundation
open Dift.Wire

/-! ### The writers -/

def setLbMetadata (host : ByteOrder) (memory : Mem) (buffer : Nat) (tick : UInt64)
    (version protocol entropy : Int) : Mem :=
  let memory := store8 memory buffer 'L'.toUInt8
  let memory := store8 memory (buffer + 1) 'B'.toUInt8
  let memory := store8 memory (buffer + 2) (UInt8.ofInt version)
  let memory := store8 memory (buffer + 3) (UInt8.ofInt protocol)
  let memory := store16 host memory (buffer + 6) (htons host (UInt16.ofInt entropy))
  store64 host memory (buffer + 8) (htonll host tick)

def setReMetadata (host : ByteOrder) (memory : Mem) (buffer : Nat) (offset length : UInt32)
    (tick : UInt64) (version : Int) (dataId : UInt16) : Mem :=
  let memory := store8 memory buffer (UInt8.ofInt (version * 16))
  let memory := store16 host memory (buffer + 2) (htons host dataId)
  let memory := store32 host memory (buffer + 4) (htonl host offset)
  let memory := store32 host memory (buffer + 8) (htonl host length)
  store64 host memory (buffer + 12) (htonll host tick)

def setSyncData (host : ByteOrder) (memory : Mem) (buffer : Nat) (version : Int) (srcId : UInt32)
    (evtNum : UInt64) (evtRate : UInt32) (nanos : UInt64) : Mem :=
  let memory := store8 memory buffer 'L'.toUInt8
  let memory := store8 memory (buffer + 1) 'C'.toUInt8
  let memory := store8 memory (buffer + 2) (UInt8.ofInt version)
  let memory := store32 host memory (buffer + 4) (htonl host srcId)
  let memory := store64 host memory (buffer + 8) (htonll host evtNum)
  let memory := store32 host memory (buffer + 16) (htonl host evtRate)
  store64 host memory (buffer + 20) (htonll host nanos)

/-! ### The bytes they leave -/

/-- A write behind a gap keeps what was in the gap. -/
theorem write_behind {memory : Mem} {start next gap : Nat} {block more : List UInt8}
    (behind : next = start + block.length + gap) :
    (memory.write start block).write next more =
      memory.write start (block ++ memory.read (start + block.length) gap ++ more) := by
  have kept : memory.write start (block ++ memory.read (start + block.length) gap) =
      memory.write start block := Memory.write_append_held (by rw [Memory.read_length])
  rw [← kept]
  apply write_next
  rw [behind, List.length_append, Memory.read_length, Nat.add_assoc]

theorem setLbMetadata_eq (host : ByteOrder) (memory : Mem) (buffer : Nat) (tick : UInt64)
    (version protocol entropy : Int) :
    setLbMetadata host memory buffer tick version protocol entropy =
      memory.write buffer (['L'.toUInt8, 'B'.toUInt8, UInt8.ofInt version, UInt8.ofInt protocol] ++
        memory.read (buffer + 4) 2 ++ (Radix.bytes .big 2 (UInt16.ofInt entropy).toNat ++
          Radix.bytes .big 8 tick.toNat)) := by
  have bytes : (((memory.write buffer ['L'.toUInt8]).write (buffer + 1) ['B'.toUInt8]).write
      (buffer + 2) [UInt8.ofInt version]).write (buffer + 3) [UInt8.ofInt protocol] =
      memory.write buffer ['L'.toUInt8, 'B'.toUInt8, UInt8.ofInt version,
        UInt8.ofInt protocol] := by
    rw [write_next (by simp), write_next (by simp), write_next (by simp)]
    rfl
  simp only [setLbMetadata, store8, store16_htons, store64_htonll]
  rw [bytes, write_next (by simp), write_behind (show buffer + 6 = buffer + _ + 2 from rfl)]
  rfl

theorem setReMetadata_eq (host : ByteOrder) (memory : Mem) (buffer : Nat)
    (offset length : UInt32) (tick : UInt64) (version : Int) (dataId : UInt16) :
    setReMetadata host memory buffer offset length tick version dataId =
      memory.write buffer ([UInt8.ofInt (version * 16)] ++ memory.read (buffer + 1) 1 ++
        (Radix.bytes .big 2 dataId.toNat ++ Radix.bytes .big 4 offset.toNat ++
          Radix.bytes .big 4 length.toNat ++ Radix.bytes .big 8 tick.toNat)) := by
  simp only [setReMetadata, store8, store16_htons, store32_htonl, store64_htonll]
  rw [write_next (by simp), write_next (by simp), write_next (by simp),
    write_behind (show buffer + 2 = buffer + _ + 1 from rfl)]
  simp

theorem setSyncData_eq (host : ByteOrder) (memory : Mem) (buffer : Nat) (version : Int)
    (srcId : UInt32) (evtNum : UInt64) (evtRate : UInt32) (nanos : UInt64) :
    setSyncData host memory buffer version srcId evtNum evtRate nanos =
      memory.write buffer (['L'.toUInt8, 'C'.toUInt8, UInt8.ofInt version] ++
        memory.read (buffer + 3) 1 ++ (Radix.bytes .big 4 srcId.toNat ++
          Radix.bytes .big 8 evtNum.toNat ++ Radix.bytes .big 4 evtRate.toNat ++
          Radix.bytes .big 8 nanos.toNat)) := by
  have bytes : ((memory.write buffer ['L'.toUInt8]).write (buffer + 1) ['C'.toUInt8]).write
      (buffer + 2) [UInt8.ofInt version] =
      memory.write buffer ['L'.toUInt8, 'C'.toUInt8, UInt8.ofInt version] := by
    rw [write_next (by simp), write_next (by simp)]
    rfl
  simp only [setSyncData, store8, store32_htonl, store64_htonll]
  rw [bytes, write_next (by simp), write_next (by simp), write_next (by simp),
    write_behind (show buffer + 4 = buffer + _ + 1 from rfl)]
  simp

/-- The 16 bytes are those of the other packetizer when the reserved ones were
zero. -/
theorem setLbMetadata_same_iff (host : ByteOrder) (memory other : Mem) (buffer start : Nat)
    (tick : UInt64) (version protocol entropy : Int) :
    (setLbMetadata host memory buffer tick version protocol entropy).read buffer lbHeaderBytes =
        (Wire.setLbMetadata host other start tick version protocol entropy).read start
          lbHeaderBytes ↔
      memory (buffer + 4) = 0 ∧ memory (buffer + 5) = 0 := by
  rw [setLbMetadata_eq, Wire.setLbMetadata_eq, read_written _ _ (by simp [lbHeaderBytes]),
    read_written _ _ (lbHeader_length _ _ _ _)]
  simp [lbHeader, Memory.read_succ]

theorem setReMetadata_same_iff (host : ByteOrder) (memory other : Mem) (buffer start : Nat)
    (offset length : UInt32) (tick : UInt64) (version : Int) (dataId : UInt16) :
    (setReMetadata host memory buffer offset length tick version dataId).read buffer
        reHeaderBytes =
      (Wire.setReMetadata host other start offset length tick version dataId).read start
        reHeaderBytes ↔ memory (buffer + 1) = 0 := by
  rw [setReMetadata_eq, Wire.setReMetadata_eq, read_written _ _ (by simp [reHeaderBytes]),
    read_written _ _ (reHeader_length _ _ _ _ _ _)]
  have zero : UInt8.ofInt 0 = 0 := rfl
  simp [reHeader, Memory.read_succ, zero]

theorem setSyncData_same_iff (host : ByteOrder) (memory other : Mem) (buffer start : Nat)
    (version : Int) (srcId : UInt32) (evtNum : UInt64) (evtRate : UInt32) (nanos : UInt64) :
    (setSyncData host memory buffer version srcId evtNum evtRate nanos).read buffer syncBytes =
      (Wire.setSyncData host other start version srcId evtNum evtRate nanos).read start
        syncBytes ↔ memory (buffer + 3) = 0 := by
  rw [setSyncData_eq, Wire.setSyncData_eq, read_written _ _ (by simp [syncBytes]),
    read_written _ _ (syncData_length _ _ _ _ _)]
  simp [syncData, Memory.read_succ]

/-! ### The sender -/

/-- The arguments of a call; `stack` is what the staging buffer and the memory
behind it hold before. -/
structure SendBufArgs where
  host : ByteOrder
  stack : Mem
  dataLen : UInt32
  maxUdpPayload : Int
  backendTime : UInt32
  tick : UInt64
  protocol : Int
  entropy : Int
  version : Int
  dataId : UInt16
  delay : UInt32
  delayPrescale : UInt32
  delayCounter : UInt32

/-- What a call leaves behind, and the datagrams it has passed to `send`. -/
structure SendBufOutcome where
  ret : Int
  packetsSent : Int
  delayCounter : UInt32
  calls : List (List UInt8)
deriving DecidableEq, Repr

/-- The variables that live across rounds. -/
structure SendBufState where
  buffer : Mem
  remainingBytes : UInt32
  localOffset : UInt32
  packetCounter : UInt32
  delayCounter : UInt32
  calls : List (List UInt8)

namespace SendBufArgs

variable (args : SendBufArgs)

/-- The `int` in arithmetic with `uint32_t`. -/
def maxPayload : UInt32 := UInt32.ofInt args.maxUdpPayload

/-- Round up to find the number of packets. -/
def totalPackets : UInt32 := (args.dataLen + args.maxPayload - 1) / args.maxPayload

/-- The number of data bytes in the next packet. -/
def bytesToWrite (remainingBytes : UInt32) : UInt32 :=
  if remainingBytes > args.maxPayload then args.maxPayload else remainingBytes

/-- The state before the loop: the load-balancer header and what does not
change is written once. -/
def start : SendBufState where
  buffer :=
    let buffer := setLbMetadata args.host args.stack 0 args.tick args.version args.protocol
      args.entropy
    let buffer := store32 args.host buffer headerBytes (htonl args.host args.backendTime)
    store32 args.host buffer (headerBytes + 4) (htonl args.host args.totalPackets)
  remainingBytes := args.dataLen
  localOffset := 0
  packetCounter := 0
  delayCounter := args.delayCounter
  calls := []

/-- The staging buffer of the next packet. -/
def fill (state : SendBufState) : Mem :=
  let buffer := setReMetadata args.host state.buffer lbHeaderBytes state.localOffset args.dataLen
    args.tick args.version args.dataId
  store32 args.host buffer (headerBytes + 8) (htonl args.host (state.packetCounter + 1))

/-- The bytes passed to `send`. -/
def datagram (state : SendBufState) : List UInt8 :=
  (args.fill state).read 0
    (args.bytesToWrite state.remainingBytes + UInt32.ofNat headerBytes).toNat

/-- The state after a successful `send`. -/
def advance (state : SendBufState) : SendBufState where
  buffer := args.fill state
  remainingBytes := state.remainingBytes - args.bytesToWrite state.remainingBytes
  localOffset := state.localOffset + args.bytesToWrite state.remainingBytes
  packetCounter := state.packetCounter + 1
  delayCounter := delayTick args.delay args.delayPrescale state.delayCounter
  calls := state.calls ++ [args.datagram state]

end SendBufArgs

/-- The loop, with the packets that remain. A `send` that takes only a part of
a datagram is only reported. -/
def sendLoop (socket : Socket) (args : SendBufArgs) : Nat → SendBufState → SendBufOutcome
  | 0, state => {
      ret := 0
      packetsSent := args.totalPackets.toNat
      delayCounter := state.delayCounter
      calls := state.calls }
  | remainingPackets + 1, state =>
      match socket.send state.calls.length (args.datagram state) with
      | some _ => {
          ret := -1
          packetsSent := (args.totalPackets - UInt32.ofNat remainingPackets - 1).toNat
          delayCounter := state.delayCounter
          calls := state.calls ++ [args.datagram state] }
      | none => sendLoop socket args remainingPackets (args.advance state)

/-- `none` is the division by a payload size of zero. -/
def sendPacketizedBuf (socket : Socket) (args : SendBufArgs) : Option SendBufOutcome :=
  if args.maxPayload = 0 then none
  else some (sendLoop socket args args.totalPackets.toNat args.start)

/-! ### The headers it sends -/

/-- The load-balancer header, with what the stack holds in the reserved
bytes. -/
def lbPart (args : SendBufArgs) : List UInt8 :=
  ['L'.toUInt8, 'B'.toUInt8, UInt8.ofInt args.version, UInt8.ofInt args.protocol] ++
    args.stack.read 4 2 ++ (Radix.bytes .big 2 (UInt16.ofInt args.entropy).toNat ++
      Radix.bytes .big 8 args.tick.toNat)

/-- The reassembly header of the packet at an offset. -/
def rePart (args : SendBufArgs) (offset : UInt32) : List UInt8 :=
  [UInt8.ofInt (args.version * 16)] ++ args.stack.read 17 1 ++
    (Radix.bytes .big 2 args.dataId.toNat ++ Radix.bytes .big 4 offset.toNat ++
      Radix.bytes .big 4 args.dataLen.toNat ++ Radix.bytes .big 8 args.tick.toNat)

theorem lbPart_length (args : SendBufArgs) : (lbPart args).length = lbHeaderBytes := by
  simp [lbPart, lbHeaderBytes]

theorem rePart_length (args : SendBufArgs) (offset : UInt32) :
    (rePart args offset).length = reHeaderBytes := by
  simp [rePart, reHeaderBytes]

/-- The invariant of the loop: the load-balancer header and the reserved byte of
the other header are what they were before it. -/
structure Staged (args : SendBufArgs) (buffer : Mem) : Prop where
  lb : buffer.read 0 lbHeaderBytes = lbPart args
  reserved : buffer.read 17 1 = args.stack.read 17 1

theorem staged_start (args : SendBufArgs) : Staged args args.start.buffer := by
  have eq : args.start.buffer = ((args.stack.write 0 (lbPart args)).write headerBytes
      (Radix.bytes .big 4 args.backendTime.toNat)).write (headerBytes + 4)
      (Radix.bytes .big 4 args.totalPackets.toNat) := by
    simp only [SendBufArgs.start, store32_htonl, setLbMetadata_eq]
    rfl
  have size := lbPart_length args
  constructor
  · rw [eq, Memory.read_write_disjoint _ _ _ (.inl (by decide)),
      Memory.read_write_disjoint _ _ _ (.inl (by decide)), read_written _ _ size]
  · rw [eq, Memory.read_write_disjoint _ _ _ (.inl (by decide)),
      Memory.read_write_disjoint _ _ _ (.inl (by decide)),
      Memory.read_write_disjoint _ _ _ (.inr (by rw [size]; decide))]

theorem fill_eq {args : SendBufArgs} {state : SendBufState} (staged : Staged args state.buffer) :
    args.fill state = (state.buffer.write lbHeaderBytes (rePart args state.localOffset)).write
      (headerBytes + 8) (Radix.bytes .big 4 (state.packetCounter + 1).toNat) := by
  simp only [SendBufArgs.fill, store32_htonl, setReMetadata_eq, rePart]
  rw [show lbHeaderBytes + 1 = 17 from rfl, staged.reserved]

/-- The staging buffer starts with the headers. -/
theorem read_fill {args : SendBufArgs} {state : SendBufState} (staged : Staged args state.buffer) :
    (args.fill state).read 0 headerBytes = lbPart args ++ rePart args state.localOffset := by
  have size := rePart_length args state.localOffset
  rw [fill_eq staged, Memory.read_write_disjoint _ _ _ (.inl (by decide)),
    show headerBytes = lbHeaderBytes + reHeaderBytes from rfl, Memory.read_add,
    Memory.read_write_disjoint _ _ _ (.inl (by decide)), staged.lb, Nat.zero_add,
    read_written _ _ size]

theorem staged_fill {args : SendBufArgs} {state : SendBufState}
    (staged : Staged args state.buffer) : Staged args (args.fill state) := by
  have whole := read_fill staged
  rw [show headerBytes = lbHeaderBytes + reHeaderBytes from rfl, Memory.read_add] at whole
  rcases List.append_inj whole (by rw [Memory.read_length, lbPart_length]) with ⟨lb, re⟩
  refine ⟨lb, ?_⟩
  rw [rePart, List.append_assoc] at re
  have behind := (Memory.read_split re).2
  have reserved := (Memory.read_split behind).1
  rw [Memory.read_length] at reserved
  exact reserved

/-- The offset of each packet and the bytes that remain before it. -/
def cut (args : SendBufArgs) : Nat → UInt32 × UInt32
  | 0 => (0, args.dataLen)
  | count + 1 =>
      let (offset, remaining) := cut args count
      (offset + args.bytesToWrite remaining, remaining - args.bytesToWrite remaining)

theorem bytesToWrite_le (args : SendBufArgs) (remaining : UInt32) :
    args.bytesToWrite remaining ≤ remaining ∧ args.bytesToWrite remaining ≤ args.maxPayload := by
  unfold SendBufArgs.bytesToWrite
  split
  case isTrue less => exact ⟨UInt32.le_of_lt less, UInt32.le_refl _⟩
  case isFalse notLess => exact ⟨UInt32.le_refl _, UInt32.not_lt.mp notLess⟩

theorem cut_le (args : SendBufArgs) (count : Nat) : (cut args count).2 ≤ args.dataLen := by
  induction count with
  | zero => exact UInt32.le_refl _
  | succ count inductionHypothesis =>
      have less := (bytesToWrite_le args (cut args count).2).1
      apply UInt32.le_trans _ inductionHypothesis
      rw [UInt32.le_iff_toNat_le, cut, UInt32.toNat_sub_of_le _ _ less]
      exact Nat.sub_le _ _

/-- A packet is sent only when its size does not overflow. -/
theorem size_eq {args : SendBufArgs} (hasPackets : args.totalPackets ≠ 0) {remaining : UInt32}
    (le : remaining ≤ args.dataLen) :
    (args.bytesToWrite remaining + UInt32.ofNat headerBytes).toNat =
      headerBytes + (args.bytesToWrite remaining).toNat := by
  rcases bytesToWrite_le args remaining with ⟨leRemaining, leMax⟩
  rw [UInt32.le_iff_toNat_le] at le leRemaining leMax
  have total : args.totalPackets.toNat ≠ 0 := fun zero => hasPackets (UInt32.toNat_inj.mp zero)
  have sum : (args.dataLen + args.maxPayload - 1).toNat =
      (args.dataLen.toNat + args.maxPayload.toNat + (2 ^ 32 - 1)) % 2 ^ 32 := by
    rw [UInt32.toNat_sub, UInt32.toNat_add]
    show (2 ^ 32 - 1 + (args.dataLen.toNat + args.maxPayload.toNat) % 2 ^ 32) % 2 ^ 32 = _
    omega
  rw [SendBufArgs.totalPackets, UInt32.toNat_div, sum] at total
  have positive : 0 < args.maxPayload.toNat := by
    apply Nat.pos_of_ne_zero
    intro zero
    rw [zero, Nat.div_zero] at total
    exact total rfl
  have large : args.maxPayload.toNat ≤
      (args.dataLen.toNat + args.maxPayload.toNat + (2 ^ 32 - 1)) % 2 ^ 32 := by
    by_contra small
    exact total (Nat.div_eq_of_lt (not_le.mp small))
  have dataSmall : args.dataLen.toNat < 2 ^ 32 := args.dataLen.toNat_lt
  have maxSmall : args.maxPayload.toNat < 2 ^ 32 := args.maxPayload.toNat_lt
  rw [UInt32.toNat_add]
  show ((args.bytesToWrite remaining).toNat + headerBytes) % 2 ^ 32 = _
  rw [Nat.mod_eq_of_lt (by simp only [headerBytes]; omega), Nat.add_comm]

/-- Where the loop is after some packets. -/
structure Looping (args : SendBufArgs) (count : Nat) (state : SendBufState) : Prop where
  staged : Staged args state.buffer
  here : (state.localOffset, state.remainingBytes) = cut args count

/-- The headers of the next packet. -/
theorem take_datagram {args : SendBufArgs} (hasPackets : args.totalPackets ≠ 0) {count : Nat}
    {state : SendBufState} (looping : Looping args count state) :
    (args.datagram state).take headerBytes = lbPart args ++ rePart args (cut args count).1 := by
  have remaining : state.remainingBytes = (cut args count).2 := congrArg Prod.snd looping.here
  have offset : state.localOffset = (cut args count).1 := congrArg Prod.fst looping.here
  have size := size_eq hasPackets (remaining ▸ cut_le args count)
  rw [SendBufArgs.datagram, size, Memory.read_add, List.take_left' (Memory.read_length _ _ _),
    read_fill looping.staged, offset]

theorem looping_advance {args : SendBufArgs} {count : Nat} {state : SendBufState}
    (looping : Looping args count state) : Looping args (count + 1) (args.advance state) where
  staged := staged_fill looping.staged
  here := by
    rw [cut, ← looping.here]
    rfl

/-- The loop only adds packets, and each has the headers of its place. -/
theorem sendLoop_calls (socket : Socket) {args : SendBufArgs} (hasPackets : args.totalPackets ≠ 0)
    (remainingPackets : Nat) {count : Nat} {state : SendBufState}
    (looping : Looping args count state) :
    ∃ more, (sendLoop socket args remainingPackets state).calls = state.calls ++ more ∧
      (remainingPackets ≠ 0 → more ≠ []) ∧
      ∀ index datagram, more[index]? = Option.some datagram → datagram.take headerBytes =
        lbPart args ++ rePart args (cut args (count + index)).1 := by
  induction remainingPackets generalizing count state with
  | zero => exact ⟨[], (List.append_nil _).symm, fun impossible => absurd rfl impossible, nofun⟩
  | succ remainingPackets inductionHypothesis =>
      have first := take_datagram hasPackets looping
      unfold sendLoop
      split
      case h_1 =>
        refine ⟨[args.datagram state], rfl, fun _ => by simp, ?_⟩
        intro index datagram isCall
        cases index with
        | zero =>
            cases isCall
            exact first
        | succ index => simp at isCall
      case h_2 =>
        rcases inductionHypothesis (looping_advance looping) with ⟨more, isMore, -, heads⟩
        refine ⟨args.datagram state :: more, ?_, fun _ => by simp, ?_⟩
        · rw [isMore, SendBufArgs.advance, List.append_assoc, List.singleton_append]
        · intro index datagram isCall
          cases index with
          | zero =>
              cases isCall
              exact first
          | succ index =>
              rw [List.getElem?_cons_succ] at isCall
              rw [heads index datagram isCall, Nat.add_right_comm, Nat.add_assoc]

/-- All packets of a call have the headers of their place. -/
theorem sendPacketizedBuf_calls {socket : Socket} {args : SendBufArgs} {outcome : SendBufOutcome}
    (returns : sendPacketizedBuf socket args = some outcome) (index : Nat)
    {datagram : List UInt8} (isCall : outcome.calls[index]? = some datagram) :
    datagram.take headerBytes = lbPart args ++ rePart args (cut args index).1 := by
  unfold sendPacketizedBuf at returns
  split at returns
  case isTrue => cases returns
  case isFalse =>
    cases returns
    by_cases noPackets : args.totalPackets = 0
    · rw [noPackets] at isCall
      cases isCall
    · have begins : Looping args 0 args.start := ⟨staged_start args, rfl⟩
      obtain ⟨more, isMore, -, heads⟩ :=
        sendLoop_calls socket noPackets args.totalPackets.toNat begins
      rw [isMore] at isCall
      have head := heads index datagram isCall
      rwa [Nat.zero_add] at head

/-- A call that has packets to send passes at least one to `send`. -/
theorem sendPacketizedBuf_some (socket : Socket) {args : SendBufArgs}
    (hasPackets : args.totalPackets ≠ 0) :
    ∃ outcome datagram, sendPacketizedBuf socket args = Option.some outcome ∧
      outcome.calls[0]? = Option.some datagram := by
  have divides : args.maxPayload ≠ 0 := by
    intro zero
    apply hasPackets
    rw [SendBufArgs.totalPackets, zero, UInt32.div_zero]
  have begins : Looping args 0 args.start := ⟨staged_start args, rfl⟩
  rcases sendLoop_calls socket hasPackets args.totalPackets.toNat begins with ⟨more, isMore, nonempty, -⟩
  have positive : args.totalPackets.toNat ≠ 0 := fun zero => hasPackets (UInt32.toNat_inj.mp zero)
  rcases List.exists_cons_of_ne_nil (nonempty positive) with ⟨first, others, rfl⟩
  refine ⟨_, first, if_neg divides, ?_⟩
  rw [isMore]
  rfl

/-- Two calls with the same arguments send the same headers in every packet
that both send, whatever each finds on its stack. -/
def SameHeaders (socket : Socket) (args : SendBufArgs) (stack : Mem) : Prop :=
  ∀ outcome other : SendBufOutcome, sendPacketizedBuf socket args = some outcome →
    sendPacketizedBuf socket { args with stack } = some other →
    ∀ (index : Nat) (datagram copy : List UInt8), outcome.calls[index]? = some datagram →
      other.calls[index]? = some copy →
      datagram.take headerBytes = copy.take headerBytes

/-- The headers of a place are the same for two stacks that agree in the three
reserved bytes, and for no others. -/
theorem parts_same_iff (args : SendBufArgs) (stack : Mem) (offset : UInt32) :
    lbPart args ++ rePart args offset =
        lbPart { args with stack } ++ rePart { args with stack } offset ↔
      args.stack 4 = stack 4 ∧ args.stack 5 = stack 5 ∧ args.stack 17 = stack 17 := by
  simp [lbPart, rePart, Memory.read_succ]

theorem sameHeaders_iff (socket : Socket) (args : SendBufArgs) (stack : Mem) :
    SameHeaders socket args stack ↔
      args.totalPackets = 0 ∨
        (args.stack 4 = stack 4 ∧ args.stack 5 = stack 5 ∧ args.stack 17 = stack 17) := by
  have moved (index : Nat) : cut { args with stack } index = cut args index := by
    induction index with
    | zero => rfl
    | succ index inductionHypothesis =>
        rw [cut, cut, inductionHypothesis]
        rfl
  constructor
  · intro same
    by_cases noPackets : args.totalPackets = 0
    · exact .inl noPackets
    · rcases sendPacketizedBuf_some socket noPackets with ⟨outcome, datagram, returns, isCall⟩
      have otherNone : SendBufArgs.totalPackets { args with stack } ≠ 0 := noPackets
      rcases sendPacketizedBuf_some socket otherNone with ⟨other, copy, otherReturns, otherCall⟩
      have heads := same outcome other returns otherReturns 0 datagram copy isCall otherCall
      rw [sendPacketizedBuf_calls returns 0 isCall,
        sendPacketizedBuf_calls otherReturns 0 otherCall, moved] at heads
      exact .inr ((parts_same_iff args stack _).mp heads)
  · intro agree outcome other returns otherReturns index datagram copy isCall otherCall
    rw [sendPacketizedBuf_calls returns index isCall,
      sendPacketizedBuf_calls otherReturns index otherCall, moved]
    rcases agree with noPackets | agree
    · unfold sendPacketizedBuf at returns
      split at returns
      case isTrue => cases returns
      case isFalse =>
        cases returns
        rw [noPackets] at isCall
        cases isCall
    · exact (parts_same_iff args stack _).mpr agree

/-- When the bytes on the wire do not depend on what was in memory before: the
writers leave the bytes of the other packetizer exactly where the reserved
bytes were zero, and two calls of the sender agree in every header exactly when
they send nothing or find the same in the reserved bytes of their staging
buffers. -/
theorem headers_same_iff (host : ByteOrder) (memory other : Mem) (buffer start : Nat) :
    (∀ (tick : UInt64) (version protocol entropy : Int),
      (setLbMetadata host memory buffer tick version protocol entropy).read buffer lbHeaderBytes =
        (Wire.setLbMetadata host other start tick version protocol entropy).read start
          lbHeaderBytes ↔ memory (buffer + 4) = 0 ∧ memory (buffer + 5) = 0) ∧
    (∀ (offset length : UInt32) (tick : UInt64) (version : Int) (dataId : UInt16),
      (setReMetadata host memory buffer offset length tick version dataId).read buffer
        reHeaderBytes =
      (Wire.setReMetadata host other start offset length tick version dataId).read start
        reHeaderBytes ↔ memory (buffer + 1) = 0) ∧
    (∀ (version : Int) (srcId : UInt32) (evtNum : UInt64) (evtRate : UInt32) (nanos : UInt64),
      (setSyncData host memory buffer version srcId evtNum evtRate nanos).read buffer syncBytes =
      (Wire.setSyncData host other start version srcId evtNum evtRate nanos).read start
        syncBytes ↔ memory (buffer + 3) = 0) ∧
    (∀ (socket : Socket) (args : SendBufArgs) (stack : Mem), SameHeaders socket args stack ↔
      args.totalPackets = 0 ∨
        (args.stack 4 = stack 4 ∧ args.stack 5 = stack 5 ∧ args.stack 17 = stack 17)) :=
  ⟨setLbMetadata_same_iff host memory other buffer start,
    setReMetadata_same_iff host memory other buffer start,
    setSyncData_same_iff host memory other buffer start, sameHeaders_iff⟩

/-- Three data bytes in one packet, with a staging buffer that held zeros. -/
def sampleArgs : SendBufArgs where
  host := .little
  stack := fun _ => 0
  dataLen := 3
  maxUdpPayload := 100
  backendTime := 0
  tick := 7
  protocol := 1
  entropy := 0
  version := 2
  dataId := 5
  delay := 0
  delayPrescale := 1
  delayCounter := 1

/-- On memory that held ones every header differs, and a call that finds ones on
its stack sends other headers than one that finds zeros. -/
theorem not_headers_same :
    (setLbMetadata .little (fun _ => 1) 0 7 2 1 0).read 0 lbHeaderBytes ≠
        (Wire.setLbMetadata .little (fun _ => 1) 0 7 2 1 0).read 0 lbHeaderBytes ∧
      (setReMetadata .little (fun _ => 1) 0 0 3 7 2 5).read 0 reHeaderBytes ≠
        (Wire.setReMetadata .little (fun _ => 1) 0 0 3 7 2 5).read 0 reHeaderBytes ∧
      (setSyncData .little (fun _ => 1) 0 2 5 7 100 9).read 0 syncBytes ≠
        (Wire.setSyncData .little (fun _ => 1) 0 2 5 7 100 9).read 0 syncBytes ∧
      ¬ SameHeaders .accepting sampleArgs (fun _ => 1) := by
  refine ⟨by decide +kernel, by decide +kernel, by decide +kernel, ?_⟩
  intro same
  have agree := (sameHeaders_iff _ _ _).mp same
  revert agree
  decide +kernel

end Dift.Packetize.Grpc
