import Dift.Packetize.FastNew

/-!
Owns `sendBuffer`, which opens a socket, takes the payload size from the MTU
and hands the whole buffer to one of the senders of version 2 packets. What the
loops of both senders do to the number of remaining bytes and to the payload
size is one law; the bound on the datagrams and termination follow from it.
The payload size leaves room for the 34 bytes of the version 1 headers and is
computed before the MTU is clamped; the results say which buffers suffer.
-/

namespace Dift.Packetize

open Dift.Foundation
open Dift.Wire

/-! ### The loops -/

/-- A sender loop, as far as lengths are concerned: every round hands over
headers and the next bytes; after a send they are gone, and after a refusal the
payload is smaller. -/
structure PacketLoop (σ ρ : Type*) (socket : Socket) where
  round : σ → Round σ ρ
  start : σ
  handed : σ → List UInt8
  remaining : σ → Nat
  payload : σ → Int
  firstLoop : σ → Bool
  firstLoop_start : firstLoop start = true
  handed_length : ∀ state, (handed state).length =
    headerBytes + bytesToWrite (remaining state) (payload state)
  again : ∀ before after, round before = .again after →
    (firstLoop before = true ∨ 0 < remaining before) ∧
      ((remaining after = remaining before - bytesToWrite (remaining before) (payload before) ∧
          payload after = payload before ∧ firstLoop after = false) ∨
        ((∃ attempts datagram, socket.send attempts datagram ≠ none) ∧
          remaining after = remaining before ∧ payload after = reducePayload (payload before)))

namespace PacketLoop

variable {σ ρ : Type*} {socket : Socket} (loop : PacketLoop σ ρ socket)

/-- The loop is in a round that hands a packet to the socket. -/
def Running (state : σ) : Prop :=
  loop.firstLoop state = true ∨ 0 < loop.remaining state

/-- A run of the loop hands the datagram to the socket. -/
def Hands (datagram : List UInt8) : Prop :=
  ∃ state, Reaches loop.round loop.start state ∧ loop.Running state ∧ loop.handed state = datagram

theorem hands_first : loop.Hands (loop.handed loop.start) :=
  ⟨loop.start, .refl, .inl loop.firstLoop_start, rfl⟩

theorem bytesToWrite_mono {fewer more : Nat} {smaller larger : Int} (le : fewer ≤ more)
    (nonneg : 0 ≤ smaller) (atMost : smaller ≤ larger) (below : larger < 2 ^ 64) :
    bytesToWrite fewer smaller ≤ bytesToWrite more larger := by
  have small := toSize_of_nonneg nonneg (by omega)
  have large := toSize_of_nonneg (nonneg.trans atMost) below
  simp only [bytesToWrite, small, large]
  split_ifs <;> omega

/-- What is left and the payload never grow. -/
structure Shrinking (state : σ) : Prop where
  remaining : loop.remaining state ≤ loop.remaining loop.start
  nonneg : 0 ≤ loop.payload state
  payload : loop.payload state ≤ loop.payload loop.start

theorem Shrinking.again {before after : σ} (shrinking : loop.Shrinking before)
    (step : loop.round before = .again after) : loop.Shrinking after := by
  rcases shrinking with ⟨remaining, nonneg, payload⟩
  rcases (loop.again before after step).2 with ⟨rest, same, -⟩ | ⟨-, rest, reduced⟩
  · refine ⟨?_, ?_, ?_⟩ <;> omega
  · rw [reducePayload, Int.tdiv_eq_ediv_of_nonneg (by omega)] at reduced
    refine ⟨?_, ?_, ?_⟩ <;> omega

/-- The first packet is the longest one. -/
theorem hands_length_le (nonneg : 0 ≤ loop.payload loop.start)
    (below : loop.payload loop.start < 2 ^ 64) {datagram : List UInt8}
    (hands : loop.Hands datagram) :
    datagram.length ≤ headerBytes +
      bytesToWrite (loop.remaining loop.start) (loop.payload loop.start) := by
  rcases hands with ⟨state, reaches, -, rfl⟩
  have shrinking : loop.Shrinking state :=
    reaches.invariant loop.Shrinking (fun _ _ before step => before.again loop step)
      ⟨le_rfl, nonneg, le_rfl⟩
  have shorter := bytesToWrite_mono shrinking.remaining shrinking.nonneg shrinking.payload below
  rw [loop.handed_length]
  omega

/-- With every send succeeding and a positive payload the loop ends. -/
theorem exists_returns (accepts : ∀ attempts datagram, socket.send attempts datagram = none)
    (positive : 1 ≤ loop.payload loop.start) (below : loop.payload loop.start < 2 ^ 64) :
    ∃ result, Returns loop.round loop.start result := by
  refine Foundation.exists_returns (fun state => loop.payload state = loop.payload loop.start)
    (fun state => loop.remaining state + (loop.firstLoop state).toNat) ?_ rfl
  intro before after same step
  rcases loop.again before after step with ⟨running, ⟨rest, kept, past⟩ | ⟨refused, -⟩⟩
  · refine ⟨kept.trans same, ?_⟩
    have size : toSize (loop.payload before) = (loop.payload before).toNat :=
      toSize_of_nonneg (by omega) (by omega)
    have moves : 0 < loop.remaining before →
        0 < bytesToWrite (loop.remaining before) (loop.payload before) := fun left =>
      bytesToWrite_pos left (by omega)
    rw [rest, past, Bool.toNat_false]
    rcases running with looping | left
    · rw [looping, Bool.toNat_true]
      omega
    · have := moves left
      omega
  · rcases refused with ⟨attempts, datagram, refused⟩
    exact absurd (accepts attempts datagram) refused

end PacketLoop

theorem SendNew.call_eq_send {socket : Socket} {args : SendNewArgs}
    (connected : args.noConnect = false) : (SendNew.style socket args).call = socket.send := by
  funext attempts bytes
  simp [SendNew.style, connected]

/-- The loop of the copying sender on a connected socket, with both headers. -/
def SendNew.loop (socket : Socket) (args : SendNewArgs) (headers : args.direct = false)
    (connected : args.noConnect = false) : PacketLoop Copying.State SendOutcome socket where
  round := Copying.round (SendNew.style socket args) args.toSendArgs
  start := Copying.start args.toSendArgs
  handed := Copying.handed (SendNew.style socket args) args.toSendArgs
  remaining := fun state => state.remainingBytes
  payload := fun state => state.maxUdpPayload
  firstLoop := fun state => state.firstLoop
  firstLoop_start := rfl
  handed_length := by
    intro state
    rw [Copying.handed, Memory.read_length]
    simp [SendNew.style, SendNew.allHeadersSize, headers, Copying.State.count, Nat.add_comm]
  again := by
    intro before after step
    unfold Copying.round at step
    split_ifs at step with running
    refine ⟨running, ?_⟩
    cases answered : (SendNew.style socket args).call before.attempts
      (Copying.handed (SendNew.style socket args) args.toSendArgs before) with
    | none =>
        rw [answered] at step
        cases step
        exact .inl ⟨rfl, rfl, rfl⟩
    | some errno =>
        simp only [answered] at step
        split_ifs at step
        cases step
        rw [SendNew.call_eq_send connected] at answered
        exact .inr ⟨⟨_, _, by rw [answered]; simp⟩, rfl, rfl⟩

/-- The loop of the in-place sender. -/
def FastNew.loop (socket : Socket) (args : FastNewArgs) :
    PacketLoop InPlace.State InPlace.Outcome socket where
  round := InPlace.round (FastNew.variant args) socket args.toSendArgs
  start := InPlace.start args.toSendArgs
  handed := InPlace.handed (FastNew.variant args) args.toSendArgs
  remaining := fun state => state.dataLen
  payload := fun state => state.maxUdpPayload
  firstLoop := fun state => state.firstLoop
  firstLoop_start := rfl
  handed_length := by
    intro state
    have headers : lbHeaderBytes + (FastNew.variant args).reBytes = headerBytes := rfl
    have length (buffers : Buffers) (pointer : Pointer) (count : Nat) :
        (buffers.read pointer count).length = count := by
      cases pointer <;> simp [Buffers.read]
    rw [InPlace.handed, length, headers, Nat.add_comm, InPlace.State.count]
  again := by
    intro before after step
    unfold InPlace.round at step
    split_ifs at step with running
    refine ⟨running, ?_⟩
    cases answered : socket.send before.attempts
      (InPlace.handed (FastNew.variant args) args.toSendArgs before) with
    | none =>
        rw [answered] at step
        cases step
        exact .inl ⟨rfl, rfl, rfl⟩
    | some errno =>
        simp only [answered] at step
        split_ifs at step
        cases step
        exact .inr ⟨⟨_, _, by rw [answered]; simp⟩, rfl, rfl⟩

/-! ### The call -/

/-- What `sendBuffer` learns from the system: the MTU of an interface, whether
it may be changed, whether a socket can be created and connected, and what the
socket then answers. -/
structure Network where
  ioctlGetMtu : String → Option Int
  ioctlSetMtu : String → Int → Bool
  opens : Bool → Bool
  connect : Bool → String → UInt16 → Int
  socket : Socket

/-- The largest MTU of the nodes' interfaces. -/
def maxEjfatMtu : Int := 9978

def getMTU (network : Network) (interfaceName : String) : Int :=
  match network.ioctlGetMtu interfaceName with
  | some mtu => mtu
  | none => 1500

def setMTU (network : Network) (interfaceName : String) (mtu : Int) : Int :=
  let mtu := if mtu < 500 then 500 else mtu
  let mtu := if mtu > maxEjfatMtu then maxEjfatMtu else mtu
  if network.ioctlSetMtu interfaceName mtu then mtu
  else
    match network.ioctlGetMtu interfaceName with
    | some current => current
    | none => -1

/-- The arguments of `sendBuffer`; the MTU is an `int`. -/
structure SendBufferArgs where
  machine : ByteOrder
  memory : Mem
  stack : Mem
  buffer : Nat
  bufLen : UInt32
  host : String
  interface : String
  mtu : Int
  port : UInt16
  tick : UInt64
  protocol : Int
  entropy : Int
  version : Int
  dataId : UInt16
  delay : UInt32
  delayPrescale : UInt32
  fast : Bool
  useIPv6 : Bool
  mtu_int : -2 ^ 31 ≤ mtu ∧ mtu < 2 ^ 31

namespace SendBufferArgs

/-- The MTU in use: the argument, else that of the interface, else 1400. -/
def usedMtu (args : SendBufferArgs) (network : Network) : Int :=
  let mtu :=
    if args.mtu = 0 then
      getMTU network (if args.interface.isEmpty then "eth0" else args.interface)
    else args.mtu
  if mtu = 0 then 1400 else mtu

/-- The payload size given to the sender: 20 bytes of IP header, 8 of UDP
header, and the headers of version 1. -/
def maxUdpPayload (args : SendBufferArgs) (network : Network) : Int :=
  args.usedMtu network - 20 - 8 - headerBytesOld

def sendArgs (args : SendBufferArgs) (network : Network) : SendArgs where
  host := args.machine
  memory := args.memory
  stack := args.stack
  dataBuffer := args.buffer
  dataLen := args.bufLen.toNat
  maxUdpPayload := args.maxUdpPayload network
  tick := args.tick
  protocol := args.protocol
  entropy := args.entropy
  version := args.version
  dataId := args.dataId
  offset := 0
  delay := args.delay
  delayPrescale := args.delayPrescale
  delayCounter := args.delayPrescale
  firstBuffer := true
  lastBuffer := true

/-- The call of the in-place sender. -/
def fastNew (args : SendBufferArgs) (network : Network) : FastNewArgs :=
  { args.sendArgs network with fullLen := args.bufLen }

/-- The call of the copying sender, through its overload without a reserved
byte and a destination. -/
def sendNew (args : SendBufferArgs) (network : Network) : SendNewArgs :=
  { args.sendArgs network with
    fullLen := args.bufLen
    direct := false
    noConnect := false
    reserved := 0 }

/-- What `connect` returns. -/
def connected (args : SendBufferArgs) (network : Network) : Int :=
  network.connect args.useIPv6 (if args.host.isEmpty then "127.0.0.1" else args.host) args.port

/-- Size of the array in which the sender builds its (first) packet. -/
def stagingBytes (args : SendBufferArgs) : Nat :=
  if args.fast then 65536 + headerBytes else 65536

end SendBufferArgs

/-- What a call returns, and the payload size and MTU that it reports when it
gets as far as sending. -/
structure SendBufferOutcome where
  ret : Int
  reported : Option (Int × Int)
deriving DecidableEq, Repr

def sendBuffer (network : Network) (args : SendBufferArgs) (fuel : Nat) :
    Option SendBufferOutcome :=
  if network.opens args.useIPv6 = false then some ⟨-1, none⟩
  else if args.connected network < 0 then some ⟨args.connected network, none⟩
  else
    let mtu := setMTU network args.interface (args.usedMtu network)
    let reported := some (args.maxUdpPayload network, mtu)
    if args.fast then
      (sendPacketizedBufferFastNew network.socket (args.fastNew network) fuel).map
        fun outcome => ⟨outcome.ret, reported⟩
    else
      (sendPacketizedBufferSendNew network.socket (args.sendNew network) fuel).map
        fun outcome => ⟨outcome.ret, reported⟩

namespace SendBuffer

variable {network : Network} {args : SendBufferArgs}

/-- The call gets as far as the packetizing sender. -/
def Sends (network : Network) (args : SendBufferArgs) : Prop :=
  network.opens args.useIPv6 = true ∧ 0 ≤ args.connected network

/-- The call hands the datagram to its socket. -/
def Hands (network : Network) (args : SendBufferArgs) (datagram : List UInt8) : Prop :=
  Sends network args ∧
    if args.fast then (FastNew.loop network.socket (args.fastNew network)).Hands datagram
    else (SendNew.loop network.socket (args.sendNew network) rfl rfl).Hands datagram

/-- The first datagram of a call. -/
theorem exists_hands (sends : Sends network args) :
    ∃ datagram, Hands network args datagram ∧ datagram.length =
      headerBytes + bytesToWrite args.bufLen.toNat (args.maxUdpPayload network) := by
  unfold Hands
  cases args.fast with
  | true =>
      exact ⟨_, ⟨sends, (FastNew.loop network.socket (args.fastNew network)).hands_first⟩,
        (FastNew.loop network.socket (args.fastNew network)).handed_length _⟩
  | false =>
      exact ⟨_, ⟨sends, (SendNew.loop network.socket (args.sendNew network) rfl rfl).hands_first⟩,
        (SendNew.loop network.socket (args.sendNew network) rfl rfl).handed_length _⟩

/-- The first datagram is the longest one. -/
theorem Hands.length_le {datagram : List UInt8} (hands : Hands network args datagram)
    (nonneg : 0 ≤ args.maxUdpPayload network) (below : args.maxUdpPayload network < 2 ^ 64) :
    datagram.length ≤
      headerBytes + bytesToWrite args.bufLen.toNat (args.maxUdpPayload network) := by
  unfold Hands at hands
  cases fast : args.fast with
  | true =>
      rw [fast] at hands
      exact PacketLoop.hands_length_le _ nonneg below hands.2
  | false =>
      rw [fast] at hands
      exact PacketLoop.hands_length_le _ nonneg below hands.2

/-- Headers and payload of the first packet fit a limit when all the data or a
full payload does. -/
theorem first_le_iff {bufLen : Nat} {payload : Int} (nonneg : 0 ≤ payload)
    (below : payload < 2 ^ 64) (limit : Nat) :
    headerBytes + bytesToWrite bufLen payload ≤ limit ↔
      bufLen + headerBytes ≤ limit ∨ payload + headerBytes ≤ limit := by
  have size := toSize_of_nonneg nonneg below
  rw [bytesToWrite, size]
  split_ifs <;> omega

/-- All datagrams fit a limit exactly when the first one does. -/
theorem hands_le_iff (nonneg : 0 ≤ args.maxUdpPayload network)
    (below : args.maxUdpPayload network < 2 ^ 64) (limit : Nat) :
    (∀ datagram, Hands network args datagram → datagram.length ≤ limit) ↔
      ¬ Sends network args ∨ args.bufLen.toNat + headerBytes ≤ limit ∨
        args.maxUdpPayload network + headerBytes ≤ limit := by
  rw [← first_le_iff nonneg below]
  constructor
  · intro fits
    by_cases sends : Sends network args
    · rcases exists_hands sends with ⟨datagram, hands, length⟩
      exact .inr (length ▸ fits datagram hands)
    · exact .inl sends
  · intro either datagram hands
    rcases either with silent | fits
    · exact absurd hands.1 silent
    · exact (hands.length_le nonneg below).trans fits

theorem maxUdpPayload_of_nonzero (nonzero : args.mtu ≠ 0) :
    args.maxUdpPayload network = args.mtu - 62 := by
  simp only [SendBufferArgs.maxUdpPayload, SendBufferArgs.usedMtu, if_neg nonzero, headerBytesOld]
  omega

/-! ### The MTU -/

/-- Every datagram, with its IP and UDP headers, is at most the MTU long. -/
def RespectsMtu (network : Network) (args : SendBufferArgs) : Prop :=
  ∀ datagram, Hands network args datagram → (20 + 8 + datagram.length : Int) ≤ args.mtu

/-- The payload size leaves 34 bytes for headers of 36 bytes: a full packet is
two bytes too long, so only buffers that do not fill a packet are sent right. -/
theorem respectsMtu_iff (network : Network) (args : SendBufferArgs)
    (range : 500 ≤ args.mtu ∧ args.mtu ≤ 9978) :
    RespectsMtu network args ↔
      ¬ Sends network args ∨ (args.bufLen.toNat : Int) + 64 ≤ args.mtu := by
  have payload : args.maxUdpPayload network = args.mtu - 62 :=
    maxUdpPayload_of_nonzero (by omega)
  have same : RespectsMtu network args ↔
      ∀ datagram, Hands network args datagram → datagram.length ≤ (args.mtu - 28).toNat := by
    apply forall₂_congr
    intro datagram _
    omega
  rw [same, hands_le_iff (by omega) (by omega), payload, headerBytes]
  refine or_congr_right ?_
  omega

/-- A system whose interfaces have no known MTU and whose socket takes
everything. -/
def sampleNetwork : Network where
  ioctlGetMtu _ := none
  ioctlSetMtu _ _ := true
  opens _ := true
  connect _ _ _ := 0
  socket := .accepting

/-- A buffer of 438 bytes with an MTU of 500. -/
def sampleSendBuffer : SendBufferArgs where
  machine := .little
  memory := fun address => UInt8.ofNat address
  stack := fun _ => 0
  buffer := 64
  bufLen := 438
  host := ""
  interface := "eth0"
  mtu := 500
  port := 19522
  tick := 5
  protocol := 1
  entropy := 0
  version := 2
  dataId := 7
  delay := 0
  delayPrescale := 1
  fast := false
  useIPv6 := false
  mtu_int := by decide

theorem sampleSendBuffer_sends : Sends sampleNetwork sampleSendBuffer := by
  constructor <;> decide

theorem respectsMtu_iff_sample :
    RespectsMtu sampleNetwork sampleSendBuffer ↔
      ¬ Sends sampleNetwork sampleSendBuffer ∨
        (sampleSendBuffer.bufLen.toNat : Int) + 64 ≤ sampleSendBuffer.mtu :=
  respectsMtu_iff sampleNetwork sampleSendBuffer (by decide)

/-- The only datagram of the call is 502 bytes long with its IP and UDP
headers. -/
theorem not_respectsMtu_sample : ¬ RespectsMtu sampleNetwork sampleSendBuffer := by
  intro respects
  rcases exists_hands sampleSendBuffer_sends with ⟨datagram, hands, length⟩
  have fits := respects datagram hands
  have long : headerBytes + bytesToWrite sampleSendBuffer.bufLen.toNat
      (sampleSendBuffer.maxUdpPayload sampleNetwork) = 474 := by decide
  have mtu : sampleSendBuffer.mtu = 500 := rfl
  rw [length, long, mtu] at fits
  omega

/-! ### Every MTU -/

/-- The call gives its sender a positive payload size, no packet outgrows the
array it is built in, and the call ends. -/
structure Safe (network : Network) (args : SendBufferArgs) : Prop where
  payload : Sends network args → 1 ≤ args.maxUdpPayload network
  staged : ∀ datagram, Hands network args datagram → datagram.length ≤ args.stagingBytes
  terminates : ∃ fuel outcome, sendBuffer network args fuel = some outcome

theorem terminates_of_not_sends (silent : ¬ Sends network args) :
    ∃ fuel outcome, sendBuffer network args fuel = some outcome := by
  unfold sendBuffer
  by_cases opens : network.opens args.useIPv6 = false
  · exact ⟨0, _, if_pos opens⟩
  · have fails : args.connected network < 0 := by
      by_contra succeeds
      exact silent ⟨by simpa using opens, by omega⟩
    exact ⟨0, _, by rw [if_neg opens, if_pos fails]⟩

theorem terminates_of_sends (sends : Sends network args)
    (accepts : ∀ attempts datagram, network.socket.send attempts datagram = none)
    (positive : 1 ≤ args.maxUdpPayload network) (below : args.maxUdpPayload network < 2 ^ 64) :
    ∃ fuel outcome, sendBuffer network args fuel = some outcome := by
  have opens : ¬ network.opens args.useIPv6 = false := by simp [sends.1]
  have connects : ¬ args.connected network < 0 := by
    have := sends.2
    omega
  simp only [sendBuffer, if_neg opens, if_neg connects]
  cases args.fast with
  | true =>
      rcases (FastNew.loop network.socket (args.fastNew network)).exists_returns accepts positive
        below with ⟨outcome, fuel, returns⟩
      exact ⟨fuel, _, congrArg (Option.map _) returns⟩
  | false =>
      rcases (SendNew.loop network.socket (args.sendNew network) rfl rfl).exists_returns accepts
        positive below with ⟨outcome, fuel, returns⟩
      exact ⟨fuel, _, congrArg (Option.map _) returns⟩

/-- With every send succeeding, a nonzero MTU is safe when it leaves a byte of
payload and the buffer or a full payload fits the array. -/
theorem safe_iff (network : Network) (args : SendBufferArgs)
    (accepts : ∀ attempts datagram, network.socket.send attempts datagram = none)
    (nonzero : args.mtu ≠ 0) :
    Safe network args ↔ ¬ Sends network args ∨
      (63 ≤ args.mtu ∧ (args.bufLen.toNat + headerBytes ≤ args.stagingBytes ∨
        args.mtu - 62 + headerBytes ≤ args.stagingBytes)) := by
  have range := args.mtu_int
  have payload : args.maxUdpPayload network = args.mtu - 62 := maxUdpPayload_of_nonzero nonzero
  by_cases sends : Sends network args
  · simp only [sends, not_true, false_or]
    constructor
    · intro safe
      have positive := safe.payload sends
      have staged := (hands_le_iff (by omega) (by omega) _).mp safe.staged
      rw [payload] at staged
      exact ⟨by omega, staged.resolve_left (not_not.mpr sends)⟩
    · intro condition
      obtain ⟨atLeast, fits⟩ := condition
      refine ⟨fun _ => by omega, ?_, terminates_of_sends sends accepts (by omega) (by omega)⟩
      rw [hands_le_iff (by omega) (by omega), payload]
      exact .inr fits
  · simp only [sends, not_false_eq_true, true_or, iff_true]
    exact ⟨fun sending => absurd sending sends, fun _ hands => absurd hands.1 sends,
      terminates_of_not_sends sends⟩

theorem safe_iff_sample :
    Safe sampleNetwork sampleSendBuffer ↔ ¬ Sends sampleNetwork sampleSendBuffer ∨
      (63 ≤ sampleSendBuffer.mtu ∧
        (sampleSendBuffer.bufLen.toNat + headerBytes ≤ sampleSendBuffer.stagingBytes ∨
          sampleSendBuffer.mtu - 62 + headerBytes ≤ sampleSendBuffer.stagingBytes)) :=
  safe_iff sampleNetwork sampleSendBuffer (fun _ _ => rfl) (by decide)

/-- One byte with an MTU of 62, which leaves no byte of payload. -/
def tinyMtu : SendBufferArgs :=
  { sampleSendBuffer with
    mtu := 62
    bufLen := 1
    mtu_int := by decide }

theorem not_safe_tinyMtu : ¬ Safe sampleNetwork tinyMtu := by
  intro safe
  have positive := safe.payload (by constructor <;> decide)
  have noPayload : tinyMtu.maxUdpPayload sampleNetwork = 0 := by decide
  omega

end SendBuffer

end Dift.Packetize
