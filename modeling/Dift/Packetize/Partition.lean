import Dift.Foundation.Tiling
import Dift.Packetize.Grpc

/-!
Owns what `sendPacketizedBuf` sends: the state after some packets, each packet
as headers and data, and `parsePacketData`, which reads the three words at the
beginning of the data. The number of packets is a rounded-up division of 32
bits, and the words stand in the staging buffer whether or not the packet is
long enough to hold them; the results say which buffers are cut well and which
packets carry their description.
-/

namespace Dift.Packetize.Grpc

open Dift.Foundation
open Dift.Wire

/-! ### Reading a packet -/

/-- What `parsePacketData` returns through its pointers. -/
structure PacketData where
  delay : UInt32
  totalPkts : UInt32
  pktSequence : UInt32
deriving DecidableEq, Repr

def parsePacketData (host : ByteOrder) (memory : Mem) (buffer : Nat) : PacketData where
  delay := ntohl host (load32 host memory buffer)
  totalPkts := ntohl host (load32 host memory (buffer + 4))
  pktSequence := ntohl host (load32 host memory (buffer + 8))

/-- The three words of a packet. -/
def words (args : SendBufArgs) (sequence : UInt32) : List UInt8 :=
  Radix.bytes .big 4 args.backendTime.toNat ++ (Radix.bytes .big 4 args.totalPackets.toNat ++
    Radix.bytes .big 4 sequence.toNat)

@[simp] theorem words_length (args : SendBufArgs) (sequence : UInt32) :
    (words args sequence).length = 12 := by
  simp [words]

theorem parsePacketData_words {host : ByteOrder} {memory : Mem} {buffer : Nat}
    {args : SendBufArgs} {sequence : UInt32}
    (held : memory.read buffer 12 = words args sequence) :
    parsePacketData host memory buffer = ⟨args.backendTime, args.totalPackets, sequence⟩ := by
  rw [words] at held
  rcases Memory.read_split held with ⟨delay, rest⟩
  rcases Memory.read_split rest with ⟨total, number⟩
  simp only [Radix.bytes_length, Nat.add_assoc, Nat.reduceAdd] at delay total number
  rw [parsePacketData, ntohl_eq delay, ntohl_eq total, ntohl_eq number]

/-- The fields that a receiver takes from the reassembly header of a packet. -/
structure Carries (args : SendBufArgs) (offset : UInt32) (fields : ReFields) : Prop where
  dataId : fields.dataId = args.dataId
  offset : fields.offset = offset
  length : fields.length = args.dataLen
  tick : fields.tick = args.tick

theorem carries_rePart {host : ByteOrder} {memory : Mem} {buffer : Nat} {args : SendBufArgs}
    {offset : UInt32} (held : memory.read buffer reHeaderBytes = rePart args offset) :
    Carries args offset (parseReHeader host memory buffer) := by
  simp only [rePart, List.append_assoc] at held
  rcases Memory.read_split held with ⟨-, held⟩
  rcases Memory.read_split held with ⟨-, held⟩
  rcases Memory.read_split held with ⟨dataId, held⟩
  rcases Memory.read_split held with ⟨place, held⟩
  rcases Memory.read_split held with ⟨length, tick⟩
  simp only [Radix.bytes_length, Memory.read_length, List.length_cons, List.length_nil,
    Nat.add_assoc, Nat.reduceAdd] at dataId place length tick
  exact ⟨ntohs_eq dataId, ntohl_eq place, ntohl_eq length, ntohll_eq tick⟩

/-- The reassembly header of a datagram, as a receiver parses it. -/
def headerOf (host : ByteOrder) (datagram : List UInt8) : ReFields :=
  parseReHeader host (Memory.write (fun _ => 0) 0 datagram) lbHeaderBytes

/-- The data of a datagram. -/
def dataOf (datagram : List UInt8) : List UInt8 :=
  datagram.drop headerBytes

/-! ### The packets of a call -/

/-- The data of a packet: its three words, over what the stack holds there. -/
def payload (args : SendBufArgs) (index : Nat) : List UInt8 :=
  (args.stack.write headerBytes (words args (UInt32.ofNat (index + 1)))).read headerBytes
    (args.bytesToWrite (cut args index).2).toNat

/-- A packet as it is sent. -/
def packet (args : SendBufArgs) (index : Nat) : List UInt8 :=
  lbPart args ++ rePart args (cut args index).1 ++ payload args index

/-- The state before a packet, when all packets before it were sent. -/
def stateAt (args : SendBufArgs) : Nat → SendBufState
  | 0 => args.start
  | count + 1 => args.advance (stateAt args count)

/-- What stands behind the headers in the staging buffer, before a packet's
number is written. -/
structure Described (args : SendBufArgs) (buffer : Mem) : Prop where
  words : buffer.read headerBytes 8 =
    Radix.bytes .big 4 args.backendTime.toNat ++ Radix.bytes .big 4 args.totalPackets.toNat
  behind : ∀ address, headerBytes + 12 ≤ address → buffer address = args.stack address

theorem described_start (args : SendBufArgs) : Described args args.start.buffer := by
  have eq : args.start.buffer = (args.stack.write 0 (lbPart args)).write headerBytes
      (Radix.bytes .big 4 args.backendTime.toNat ++
        Radix.bytes .big 4 args.totalPackets.toNat) := by
    simp only [SendBufArgs.start, store32_htonl, setLbMetadata_eq]
    exact write_next (by simp)
  constructor
  · rw [eq, read_written _ _ (by simp)]
  · intro address behind
    have size := lbPart_length args
    rw [eq, Memory.write_outside _ _ _ (by simp; omega),
      Memory.write_outside _ _ _ (by rw [size]; simp only [headerBytes, lbHeaderBytes] at *; omega)]

theorem described_fill {args : SendBufArgs} {state : SendBufState}
    (staged : Staged args state.buffer) (described : Described args state.buffer) :
    Described args (args.fill state) := by
  have size := rePart_length args state.localOffset
  rw [fill_eq staged]
  constructor
  · rw [Memory.read_write_disjoint _ _ _ (.inl (by omega)),
      Memory.read_write_disjoint _ _ _ (.inr (by rw [size]; decide)), described.words]
  · intro address behind
    rw [Memory.write_outside _ _ _ (.inr (by simp; omega)),
      Memory.write_outside _ _ _ (.inr (by
        rw [size]; simp only [headerBytes, lbHeaderBytes, reHeaderBytes] at *; omega)),
      described.behind address behind]

/-- The data of the next packet. -/
theorem read_fill_payload {args : SendBufArgs} {state : SendBufState}
    (staged : Staged args state.buffer) (described : Described args state.buffer) (count : Nat) :
    (args.fill state).read headerBytes count =
      (args.stack.write headerBytes (words args (state.packetCounter + 1))).read headerBytes
        count := by
  have filled := described_fill staged described
  have number : (args.fill state).read (headerBytes + 8) 4 =
      Radix.bytes .big 4 (state.packetCounter + 1).toNat := by
    rw [fill_eq staged, read_written _ _ (by simp)]
  have all : (args.fill state).read headerBytes 12 = words args (state.packetCounter + 1) := by
    rw [show 12 = 8 + 4 from rfl, Memory.read_add, filled.words, number, words, List.append_assoc]
  rw [Memory.read_eq_iff]
  intro index _
  by_cases inWords : index < 12
  · have written :=
      read_written args.stack headerBytes (words_length args (state.packetCounter + 1))
    exact (Memory.read_eq_iff _ _ _ _ _).mp (all.trans written.symm) index inWords
  · rw [filled.behind _ (by omega), Memory.write_outside _ _ _ (by rw [words_length]; omega)]

theorem stateAt_facts (args : SendBufArgs) (count : Nat) :
    Looping args count (stateAt args count) ∧ Described args (stateAt args count).buffer ∧
      (stateAt args count).packetCounter = UInt32.ofNat count := by
  induction count with
  | zero => exact ⟨⟨staged_start args, rfl⟩, described_start args, rfl⟩
  | succ count inductionHypothesis =>
      rcases inductionHypothesis with ⟨looping, described, counter⟩
      refine ⟨looping_advance looping, described_fill looping.staged described, ?_⟩
      show (stateAt args count).packetCounter + 1 = _
      rw [counter, UInt32.ofNat_add]
      rfl

/-- The packets passed to `send` are those of their places. -/
theorem datagram_stateAt {args : SendBufArgs} (hasPackets : args.totalPackets ≠ 0) (index : Nat) :
    args.datagram (stateAt args index) = packet args index := by
  rcases stateAt_facts args index with ⟨looping, described, counter⟩
  have remaining : (stateAt args index).remainingBytes = (cut args index).2 :=
    congrArg Prod.snd looping.here
  have offset : (stateAt args index).localOffset = (cut args index).1 :=
    congrArg Prod.fst looping.here
  rw [SendBufArgs.datagram, remaining, size_eq hasPackets (cut_le args index), Memory.read_add,
    read_fill looping.staged, Nat.zero_add, read_fill_payload looping.staged described, offset,
    counter, packet, payload, UInt32.ofNat_add]
  rfl

theorem stateAt_calls {args : SendBufArgs} (hasPackets : args.totalPackets ≠ 0) (count : Nat) :
    (stateAt args count).calls = (List.range count).map (packet args) := by
  induction count with
  | zero => rfl
  | succ count inductionHypothesis =>
      rw [stateAt, SendBufArgs.advance, inductionHypothesis, datagram_stateAt hasPackets,
        List.range_succ, List.map_append, List.map_singleton]

/-! ### Whole calls -/

/-- With every send succeeding all packets go out. -/
theorem sendLoop_accepted {socket : Socket} {args : SendBufArgs}
    (accepts : ∀ attempts datagram, socket.send attempts datagram = none)
    (remainingPackets count : Nat) :
    sendLoop socket args remainingPackets (stateAt args count) =
      { ret := 0
        packetsSent := args.totalPackets.toNat
        delayCounter := (stateAt args (count + remainingPackets)).delayCounter
        calls := (stateAt args (count + remainingPackets)).calls } := by
  induction remainingPackets generalizing count with
  | zero => rfl
  | succ remainingPackets inductionHypothesis =>
      have next := inductionHypothesis (count + 1)
      rw [stateAt, Nat.add_right_comm] at next
      rw [sendLoop, accepts]
      exact next

/-- The first send that fails ends the call and is not counted. -/
theorem sendLoop_refused {socket : Socket} {args : SendBufArgs} (hasPackets : args.totalPackets ≠ 0)
    (remainingPackets : Nat) {count : Nat}
    (all : count + remainingPackets = args.totalPackets.toNat) {index : Nat} (later : count ≤ index)
    {datagram : List UInt8}
    (isCall : (sendLoop socket args remainingPackets (stateAt args count)).calls[index]? =
      Option.some datagram)
    (refused : socket.send index datagram ≠ none) :
    (sendLoop socket args remainingPackets (stateAt args count)).ret = -1 ∧
      (sendLoop socket args remainingPackets (stateAt args count)).packetsSent = index := by
  have length (count : Nat) : (stateAt args count).calls.length = count := by
    rw [stateAt_calls hasPackets, List.length_map, List.length_range]
  have small : args.totalPackets.toNat < 2 ^ 32 := args.totalPackets.toNat_lt
  induction remainingPackets generalizing count with
  | zero =>
      have past : (stateAt args count).calls[index]? = none :=
        List.getElem?_eq_none (by rw [length]; exact later)
      rw [sendLoop, past] at isCall
      cases isCall
  | succ remainingPackets inductionHypothesis =>
      have here : ((stateAt args count).calls ++ [args.datagram (stateAt args count)])[count]? =
          Option.some (args.datagram (stateAt args count)) := by
        rw [List.getElem?_append_right (by rw [length]), length, Nat.sub_self]
        rfl
      cases answer : socket.send count (args.datagram (stateAt args count)) with
      | some errno =>
          simp only [sendLoop, length, answer] at isCall ⊢
          rcases List.getElem?_eq_some_iff.mp isCall with ⟨within, -⟩
          rw [List.length_append, length, List.length_singleton] at within
          refine ⟨trivial, ?_⟩
          have rest : (UInt32.ofNat remainingPackets).toNat = remainingPackets :=
            UInt32.toNat_ofNat_of_lt' (by show remainingPackets < 2 ^ 32; omega)
          have left : (args.totalPackets - UInt32.ofNat remainingPackets).toNat = count + 1 := by
            rw [UInt32.toNat_sub_of_le _ _ (by rw [UInt32.le_iff_toNat_le, rest]; omega), rest]
            omega
          rw [UInt32.toNat_sub_of_le _ _ (by
            rw [UInt32.le_iff_toNat_le, left]; show 1 ≤ count + 1; omega), left]
          show ((count + 1 - 1 : Nat) : Int) = index
          omega
      | none =>
          simp only [sendLoop, length, answer] at isCall ⊢
          have next : count + 1 + remainingPackets = args.totalPackets.toNat := by omega
          refine inductionHypothesis next ?_ isCall
          by_contra first
          have same : index = count := by omega
          subst same
          rcases sendLoop_calls socket hasPackets remainingPackets (stateAt_facts args (index + 1)).1 with
            ⟨more, isMore, -⟩
          have added : (stateAt args (index + 1)).calls =
              (stateAt args index).calls ++ [args.datagram (stateAt args index)] := rfl
          rw [show args.advance (stateAt args index) = stateAt args (index + 1) from rfl, isMore,
            List.getElem?_append_left (by rw [length]; omega), added, here] at isCall
          cases isCall
          exact refused answer

/-! ### Numbers -/

section Numbers

variable {args : SendBufArgs}

/-- The payload size of a call in its documented range. -/
def size (args : SendBufArgs) : Nat :=
  args.maxUdpPayload.toNat

variable (range : 1 ≤ args.maxUdpPayload ∧ args.maxUdpPayload ≤ 9964)

include range

theorem size_range : 1 ≤ size args ∧ size args ≤ 9964 := by
  unfold size
  omega

theorem maxPayload_toNat : args.maxPayload.toNat = size args := by
  have small := size_range range
  unfold size at small ⊢
  rw [SendBufArgs.maxPayload, UInt32.ofInt, UInt32.toNat_ofNat']
  omega

theorem bytesToWrite_toNat (remaining : UInt32) :
    (args.bytesToWrite remaining).toNat = min (size args) remaining.toNat := by
  have whole := maxPayload_toNat range
  unfold SendBufArgs.bytesToWrite
  split
  case isTrue less =>
    rw [gt_iff_lt, UInt32.lt_iff_toNat_lt] at less
    omega
  case isFalse notLess =>
    rw [gt_iff_lt, UInt32.lt_iff_toNat_lt] at notLess
    omega

/-- Packets start at the multiples of the payload size. -/
theorem cut_toNat (index : Nat) :
    (cut args index).1.toNat = min (index * size args) args.dataLen.toNat ∧
      (cut args index).2.toNat = args.dataLen.toNat - index * size args := by
  have small : args.dataLen.toNat < 2 ^ 32 := args.dataLen.toNat_lt
  induction index with
  | zero => simp [cut]
  | succ index inductionHypothesis =>
      rcases inductionHypothesis with ⟨offset, remaining⟩
      have count := bytesToWrite_toNat range (cut args index).2
      rw [Nat.succ_mul, cut]
      dsimp only
      rw [UInt32.toNat_add, UInt32.toNat_sub_of_le _ _ (bytesToWrite_le args _).1, offset,
        remaining, count, remaining]
      show (_ + _) % 2 ^ 32 = _ ∧ _
      rw [Nat.mod_eq_of_lt (by omega)]
      omega

theorem payload_length (index : Nat) :
    (payload args index).length = min (size args) (args.dataLen.toNat - index * size args) := by
  rw [payload, Memory.read_length, bytesToWrite_toNat range, (cut_toNat range index).2]

/-- The rounded-up division is right as long as its sum is one of 32 bits;
beyond, there are no packets. -/
theorem totalPackets_toNat :
    args.totalPackets.toNat =
      if args.dataLen.toNat + size args ≤ 2 ^ 32 then args.dataLen.toNat ⌈/⌉ size args else 0 := by
  have small : args.dataLen.toNat < 2 ^ 32 := args.dataLen.toNat_lt
  have sizes := size_range range
  have whole := maxPayload_toNat range
  have sum : (args.dataLen + args.maxPayload - 1).toNat =
      (args.dataLen.toNat + size args + (2 ^ 32 - 1)) % 2 ^ 32 := by
    rw [UInt32.toNat_sub, UInt32.toNat_add, whole]
    show (2 ^ 32 - 1 + (args.dataLen.toNat + size args) % 2 ^ 32) % 2 ^ 32 = _
    omega
  rw [SendBufArgs.totalPackets, UInt32.toNat_div, sum, whole]
  split_ifs with fits
  · have exact : (args.dataLen.toNat + size args + (2 ^ 32 - 1)) % 2 ^ 32 =
        args.dataLen.toNat + size args - 1 := by omega
    rw [exact, Nat.ceilDiv_eq_add_pred_div]
  · exact Nat.div_eq_of_lt (by omega)

theorem ceilDiv_ne_zero (hasData : args.dataLen ≠ 0) : args.dataLen.toNat ⌈/⌉ size args ≠ 0 := by
  have positive : args.dataLen.toNat ≠ 0 := fun zero => hasData (UInt32.toNat_inj.mp zero)
  have least := (ceilDiv_le_iff_le_mul (size_range range).1
    (b := args.dataLen.toNat) (c := 0)).mp
  omega

/-- What a call with every send succeeding does. -/
theorem sendPacketizedBuf_accepting :
    ∃ outcome, sendPacketizedBuf .accepting args = some outcome ∧ outcome.ret = 0 ∧
      outcome.packetsSent = args.totalPackets.toNat ∧
      outcome.calls = (List.range args.totalPackets.toNat).map (packet args) := by
  have divides : args.maxPayload ≠ 0 := by
    intro zero
    have whole := maxPayload_toNat range
    have sizes := size_range range
    rw [zero, UInt32.toNat_zero] at whole
    omega
  have all := @sendLoop_accepted .accepting args (fun _ _ => rfl) args.totalPackets.toNat 0
  refine ⟨_, if_neg divides, ?_⟩
  rw [show args.start = stateAt args 0 from rfl, all]
  refine ⟨rfl, rfl, ?_⟩
  show (stateAt args (0 + args.totalPackets.toNat)).calls = _
  rw [Nat.zero_add]
  by_cases noPackets : args.totalPackets = 0
  · rw [noPackets]
    rfl
  · exact stateAt_calls noPackets _

end Numbers

/-! ### The whole buffer -/

theorem headerOf_packet (host : ByteOrder) (args : SendBufArgs) (index : Nat) :
    Carries args (cut args index).1 (headerOf host (packet args index)) := by
  apply carries_rePart
  have written := Memory.read_write_self (fun _ => 0) 0 (packet args index)
  have first := (Memory.read_split (written.trans (List.append_assoc _ _ _))).2
  have second := (Memory.read_split first).1
  rwa [lbPart_length, rePart_length, Nat.zero_add] at second

theorem dataOf_packet (args : SendBufArgs) (index : Nat) :
    dataOf (packet args index) = payload args index := by
  apply List.drop_left'
  rw [List.length_append, lbPart_length, rePart_length]
  rfl

/-- A call has cut its whole buffer into packets in order. -/
structure Partitions (args : SendBufArgs) (outcome : SendBufOutcome) : Prop where
  ret : outcome.ret = 0
  packetsSent : outcome.packetsSent = outcome.calls.length
  count : outcome.calls.length = args.dataLen.toNat ⌈/⌉ args.maxUdpPayload.toNat
  placed : (outcome.calls.map fun call =>
      (⟨(headerOf args.host call).offset.toNat, dataOf call⟩ : Placed UInt8)) =
    layout 0 (outcome.calls.map dataOf)
  nonempty : ∀ call ∈ outcome.calls, dataOf call ≠ []
  whole : (outcome.calls.map dataOf).flatten.length = args.dataLen.toNat
  length : ∀ call ∈ outcome.calls, (headerOf args.host call).length = args.dataLen

/-- Every packet carries its number, from 1 on. -/
def Numbered (outcome : SendBufOutcome) : Prop :=
  ∀ (index : Nat) (call : List UInt8), outcome.calls[index]? = some call →
    ((dataOf call).drop 8).take 4 = Radix.bytes .big 4 (index + 1)

/-- A call whose send fails returns -1 and the number of packets sent before. -/
def Accounts (args : SendBufArgs) : Prop :=
  ∀ (socket : Socket) (outcome : SendBufOutcome) (index : Nat) (datagram : List UInt8),
    sendPacketizedBuf socket args = some outcome → outcome.calls[index]? = some datagram →
      socket.send index datagram ≠ none → outcome.ret = -1 ∧ outcome.packetsSent = index

/-- The call partitions its buffer, and its packets and its failures are
counted right. -/
structure SplitsBuffer (args : SendBufArgs) : Prop where
  sends : ∃ outcome, sendPacketizedBuf .accepting args = some outcome ∧
    Partitions args outcome ∧ Numbered outcome
  fails : Accounts args

theorem accounts (args : SendBufArgs) : Accounts args := by
  intro socket outcome index datagram returns isCall refused
  unfold sendPacketizedBuf at returns
  split_ifs at returns
  cases returns
  by_cases noPackets : args.totalPackets = 0
  · rw [noPackets] at isCall
    cases isCall
  · exact sendLoop_refused noPackets args.totalPackets.toNat (Nat.zero_add _) (Nat.zero_le _) isCall
      refused

section Results

variable {args : SendBufArgs} (range : 1 ≤ args.maxUdpPayload ∧ args.maxUdpPayload ≤ 9964)

include range

theorem partitions_iff {outcome : SendBufOutcome}
    (returns : sendPacketizedBuf .accepting args = some outcome) :
    Partitions args outcome ↔ args.dataLen.toNat + size args ≤ 2 ^ 32 := by
  rcases sendPacketizedBuf_accepting range with ⟨other, same, ret, sent, calls⟩
  cases returns.symm.trans same
  have total := totalPackets_toNat range
  have sizes := size_range range
  constructor
  · intro partitions
    by_contra wraps
    have count := partitions.count
    rw [calls, total, if_neg wraps] at count
    have hasData : args.dataLen ≠ 0 := by
      intro zero
      rw [zero, UInt32.toNat_zero] at wraps
      omega
    exact ceilDiv_ne_zero range hasData count.symm
  · intro fits
    rw [if_pos fits] at total
    have even := payload_length range
    have blocks : outcome.calls.map dataOf =
        (List.range (args.dataLen.toNat ⌈/⌉ size args)).map (payload args) := by
      rw [calls, total, List.map_map]
      exact List.map_congr_left fun index _ => dataOf_packet args index
    have enough : args.dataLen.toNat ≤ (args.dataLen.toNat ⌈/⌉ size args) * size args := by
      rw [Nat.mul_comm]
      exact (ceilDiv_le_iff_le_mul sizes.1).mp le_rfl
    refine ⟨ret, ?_, ?_, ?_, ?_, ?_, ?_⟩
    · rw [sent, calls, List.length_map, List.length_range]
    · rw [calls, List.length_map, List.length_range, total]
      rfl
    · rw [blocks, layout_even even, calls, total, List.map_map]
      apply List.map_congr_left
      intro index _
      have fields := headerOf_packet args.host args index
      simp only [Function.comp_apply, fields.offset, dataOf_packet, (cut_toNat range index).1]
    · intro call member
      rw [calls, total] at member
      rcases List.mem_map.mp member with ⟨index, below, rfl⟩
      have before := (lt_iff_lt_of_le_iff_le (ceilDiv_le_iff_le_mul sizes.1)).mp
        (List.mem_range.mp below)
      rw [dataOf_packet, ← List.length_pos_iff, even, Nat.mul_comm]
      omega
    · rw [blocks, flatten_even_length even]
      omega
    · intro call member
      rw [calls] at member
      rcases List.mem_map.mp member with ⟨index, -, rfl⟩
      exact (headerOf_packet args.host args index).length

/-- The packets of a call are long enough for their words. -/
theorem payload_length_iff :
    (∀ index < args.dataLen.toNat ⌈/⌉ size args, 12 ≤ (payload args index).length) ↔
      args.dataLen.toNat = 0 ∨ (12 ≤ size args ∧
        (args.dataLen.toNat % size args = 0 ∨ 12 ≤ args.dataLen.toNat % size args)) := by
  simp only [payload_length range]
  exact even_le_iff (size_range range).1 12

end Results

/-! ### Descriptions -/

/-- A packet that is long enough starts with its three words. -/
theorem payload_take {args : SendBufArgs} {index : Nat}
    (long : 12 ≤ (payload args index).length) :
    (payload args index).take 12 = words args (UInt32.ofNat (index + 1)) := by
  have length := words_length args (UInt32.ofNat (index + 1))
  rw [payload, Memory.read_length] at long
  rw [payload, ← Memory.read_take rfl long]
  exact read_written args.stack headerBytes length

/-- A packet carries its number exactly when it is long enough. -/
theorem number_iff {args : SendBufArgs} {index : Nat} (small : index + 1 < 2 ^ 32) :
    ((payload args index).drop 8).take 4 = Radix.bytes .big 4 (index + 1) ↔
      12 ≤ (payload args index).length := by
  constructor
  · intro carried
    have length := congrArg List.length carried
    rw [List.length_take, List.length_drop, Radix.bytes_length] at length
    omega
  · intro long
    have number : (UInt32.ofNat (index + 1)).toNat = index + 1 := UInt32.toNat_ofNat_of_lt' small
    rw [List.take_drop, payload_take long, words, number, ← List.append_assoc]
    exact List.drop_left' (by simp)

/-- A receiver finds the description in a packet that is long enough. -/
theorem parsePacketData_payload {args : SendBufArgs} {index : Nat}
    (long : 12 ≤ (payload args index).length) (host : ByteOrder) {memory : Mem} {buffer : Nat}
    (held : memory.read buffer (payload args index).length = payload args index) :
    parsePacketData host memory buffer =
      ⟨args.backendTime, args.totalPackets, UInt32.ofNat (index + 1)⟩ := by
  apply parsePacketData_words
  rw [Memory.read_take held long, payload_take long]

/-- The packet at a place of the list of calls. -/
theorem packets_getElem? (args : SendBufArgs) (count index : Nat) (call : List UInt8) :
    ((List.range count).map (packet args))[index]? = some call ↔
      index < count ∧ packet args index = call := by
  rw [List.getElem?_map, Option.map_eq_some_iff]
  constructor
  · intro found
    obtain ⟨place, isPlace, rfl⟩ := found
    rcases List.getElem?_eq_some_iff.mp isPlace with ⟨below, same⟩
    rw [List.getElem_range] at same
    rw [List.length_range] at below
    subst same
    exact ⟨below, rfl⟩
  · intro found
    obtain ⟨below, rfl⟩ := found
    exact ⟨index, List.getElem?_range below, rfl⟩

theorem numbered_iff {args : SendBufArgs} {outcome : SendBufOutcome}
    (calls : outcome.calls = (List.range args.totalPackets.toNat).map (packet args)) :
    Numbered outcome ↔ ∀ index < args.totalPackets.toNat, 12 ≤ (payload args index).length := by
  have small : args.totalPackets.toNat < 2 ^ 32 := args.totalPackets.toNat_lt
  unfold Numbered
  simp only [calls, packets_getElem?]
  constructor
  · intro numbered index below
    rw [← number_iff (by omega), ← dataOf_packet]
    exact numbered index _ ⟨below, rfl⟩
  · intro long index call found
    obtain ⟨below, rfl⟩ := found
    rw [dataOf_packet, number_iff (by omega)]
    exact long index below

/-- The buffer is partitioned as long as its rounded-up division is one of 32
bits, beyond that nothing is sent; the packets also carry their numbers when
none of them is shorter than 12 bytes; and failures are always counted right. -/
theorem splitsBuffer_iff (args : SendBufArgs)
    (range : 1 ≤ args.maxUdpPayload ∧ args.maxUdpPayload ≤ 9964) :
    ((∃ outcome, sendPacketizedBuf .accepting args = some outcome ∧ Partitions args outcome) ↔
      args.dataLen.toNat + size args ≤ 2 ^ 32) ∧
    (SplitsBuffer args ↔ args.dataLen.toNat + size args ≤ 2 ^ 32 ∧
      (args.dataLen.toNat = 0 ∨ (12 ≤ size args ∧
        (args.dataLen.toNat % size args = 0 ∨ 12 ≤ args.dataLen.toNat % size args)))) := by
  rcases sendPacketizedBuf_accepting range with ⟨outcome, returns, -, -, calls⟩
  have total := totalPackets_toNat range
  have whole : (∃ outcome, sendPacketizedBuf .accepting args = some outcome ∧
      Partitions args outcome) ↔ args.dataLen.toNat + size args ≤ 2 ^ 32 := by
    rw [← partitions_iff range returns]
    constructor
    · intro partitioned
      obtain ⟨other, same, partitions⟩ := partitioned
      cases returns.symm.trans same
      exact partitions
    · intro partitions
      exact ⟨outcome, returns, partitions⟩
  refine ⟨whole, ?_⟩
  rw [← payload_length_iff range]
  constructor
  · intro splits
    rcases splits.sends with ⟨other, same, partitions, numbered⟩
    cases returns.symm.trans same
    have fits := (partitions_iff range returns).mp partitions
    have long := (numbered_iff calls).mp numbered
    rw [total, if_pos fits] at long
    exact ⟨fits, long⟩
  · intro condition
    obtain ⟨fits, long⟩ := condition
    rw [if_pos fits] at total
    refine ⟨⟨outcome, returns, (partitions_iff range returns).mpr fits, ?_⟩, accounts args⟩
    rw [numbered_iff calls, total]
    exact long

theorem splitsBuffer_iff_sample :
    SplitsBuffer sampleArgs ↔ sampleArgs.dataLen.toNat + size sampleArgs ≤ 2 ^ 32 ∧
      (sampleArgs.dataLen.toNat = 0 ∨ (12 ≤ size sampleArgs ∧
        (sampleArgs.dataLen.toNat % size sampleArgs = 0 ∨
          12 ≤ sampleArgs.dataLen.toNat % size sampleArgs))) :=
  (splitsBuffer_iff sampleArgs (by decide)).2

/-- The largest length, in packets of two bytes. -/
def wrappingArgs : SendBufArgs :=
  { sampleArgs with
    dataLen := 4294967295
    maxUdpPayload := 2 }

/-- The sum before the division wraps to zero: nothing is sent, and the call
returns 0. -/
theorem not_splitsBuffer_wrapping : ¬ SplitsBuffer wrappingArgs := by
  intro splits
  rcases splits.sends with ⟨outcome, returns, partitions, -⟩
  have fits := (partitions_iff (by decide) returns).mp partitions
  exact absurd fits (by decide)

/-- Every packet is at least 12 bytes long, and whoever parses its data finds
the time, the number of packets and the number of the packet. -/
def Describes (args : SendBufArgs) : Prop :=
  ∃ outcome, sendPacketizedBuf .accepting args = some outcome ∧
    ∀ (index : Nat) (call : List UInt8), outcome.calls[index]? = some call →
      12 ≤ (dataOf call).length ∧ ∀ (receiver : ByteOrder) (memory : Mem) (buffer : Nat),
        parsePacketData receiver (memory.write buffer (dataOf call)) buffer =
          ⟨args.backendTime, UInt32.ofNat outcome.calls.length, UInt32.ofNat (index + 1)⟩

/-- The staging buffer always holds the description; the last packet carries it
when the division leaves nothing or at least 12 bytes. -/
theorem describes_iff (args : SendBufArgs) (length : 1 ≤ args.dataLen ∧ args.dataLen ≤ 2 ^ 31)
    (range : 12 ≤ args.maxUdpPayload ∧ args.maxUdpPayload ≤ 9964) :
    Describes args ↔
      args.dataLen.toNat % size args = 0 ∨ 12 ≤ args.dataLen.toNat % size args := by
  have inRange : 1 ≤ args.maxUdpPayload ∧ args.maxUdpPayload ≤ 9964 := by omega
  rcases sendPacketizedBuf_accepting inRange with ⟨outcome, returns, -, -, calls⟩
  have least : 1 ≤ args.dataLen.toNat := length.1
  have most : args.dataLen.toNat ≤ 2 ^ 31 := length.2
  have sizes := size_range inRange
  have total := totalPackets_toNat inRange
  rw [if_pos (by omega)] at total
  have count : UInt32.ofNat outcome.calls.length = args.totalPackets := by
    rw [calls, List.length_map, List.length_range, UInt32.ofNat_toNat]
  have needed : (∀ index < args.dataLen.toNat ⌈/⌉ size args, 12 ≤ (payload args index).length) ↔
      args.dataLen.toNat % size args = 0 ∨ 12 ≤ args.dataLen.toNat % size args := by
    have large : 12 ≤ size args := by
      unfold size
      omega
    rw [payload_length_iff inRange]
    constructor
    · intro either
      rcases either with noPackets | ⟨-, rest⟩
      · omega
      · exact rest
    · intro rest
      exact .inr ⟨large, rest⟩
  rw [← needed]
  constructor
  · intro describes index below
    obtain ⟨other, same, described⟩ := describes
    cases returns.symm.trans same
    rw [← dataOf_packet]
    refine (described index _ ?_).1
    rw [calls, packets_getElem?]
    exact ⟨by omega, rfl⟩
  · intro long
    refine ⟨outcome, returns, fun index call isCall => ?_⟩
    rw [calls, packets_getElem?, total] at isCall
    rcases isCall with ⟨below, rfl⟩
    rw [dataOf_packet, count]
    refine ⟨long index below, fun receiver memory buffer => ?_⟩
    exact parsePacketData_payload (long index below) receiver (Memory.read_write_self _ _ _)

/-- Twelve bytes and one more. -/
def shortArgs : SendBufArgs :=
  { sampleArgs with
    dataLen := 13
    maxUdpPayload := 12 }

theorem describes_iff_short :
    Describes shortArgs ↔ shortArgs.dataLen.toNat % size shortArgs = 0 ∨
      12 ≤ shortArgs.dataLen.toNat % size shortArgs :=
  describes_iff shortArgs (by decide) (by decide)

/-- The second packet carries one byte. -/
theorem not_describes_short : ¬ Describes shortArgs := by
  intro describes
  obtain ⟨outcome, returns, described⟩ := describes
  have range : 1 ≤ shortArgs.maxUdpPayload ∧ shortArgs.maxUdpPayload ≤ 9964 := by decide
  rcases sendPacketizedBuf_accepting range with ⟨other, same, -, -, calls⟩
  cases returns.symm.trans same
  have isCall : outcome.calls[1]? = some (packet shortArgs 1) := by
    rw [calls, packets_getElem?]
    exact ⟨by decide, rfl⟩
  have long := (described 1 _ isCall).1
  rw [dataOf_packet, payload_length (by decide)] at long
  revert long
  decide

end Dift.Packetize.Grpc
