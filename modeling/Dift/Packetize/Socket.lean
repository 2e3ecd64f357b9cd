import Dift.Wire.Headers

/-!
Owns what the six packetizing senders share: the socket they call, their
common arguments, what a call leaves behind, and the small computations of a
packet's payload size, of the reduction after `EMSGSIZE` and of the delay
counter. It owns no sender loop.
-/

namespace Dift.Packetize

open Dift.Foundation
open Dift.Wire

/-- The `errno` values the senders tell apart. -/
inductive Errno where
  | emsgsize
  | other (code : Nat)
deriving DecidableEq, Repr

/-- A UDP socket: each call sees the number of calls made before and the
datagram, and accepts the datagram whole or fails. -/
structure Socket where
  send : Nat → List UInt8 → Option Errno
  sendto : Nat → List UInt8 → Option Errno
  sendmsg : Nat → List UInt8 → Option Errno

/-- A socket on which every call succeeds. -/
def Socket.accepting : Socket where
  send _ _ := none
  sendto _ _ := none
  sendmsg _ _ := none

/-- Accept a datagram of at most `limit` bytes and fail with `EMSGSIZE`
otherwise. -/
def acceptUpTo (limit : Nat) (datagram : List UInt8) : Option Errno :=
  if datagram.length ≤ limit then none else some .emsgsize

/-- A socket that accepts exactly the datagrams of at most `limit` bytes. -/
def Socket.limited (limit : Nat) : Socket where
  send _ datagram := acceptUpTo limit datagram
  sendto _ datagram := acceptUpTo limit datagram
  sendmsg _ datagram := acceptUpTo limit datagram

/-- The arguments common to the senders. `memory` is the caller's memory,
`stack` the unknown contents of the sender's own packet array. -/
structure SendArgs where
  host : ByteOrder
  memory : Mem
  stack : Mem
  dataBuffer : Nat
  dataLen : Nat
  maxUdpPayload : Int
  tick : UInt64
  protocol : Int
  entropy : Int
  version : Int
  dataId : UInt16
  offset : UInt32
  delay : UInt32
  delayPrescale : UInt32
  delayCounter : UInt32
  firstBuffer : Bool
  lastBuffer : Bool

/-- The data a call is asked to send. -/
def SendArgs.data (args : SendArgs) : List UInt8 :=
  args.memory.read args.dataBuffer args.dataLen

/-- What a call leaves behind: the returned value, the value-result arguments
and the datagrams the socket accepted, in order. -/
structure SendOutcome where
  ret : Int
  offset : UInt32
  packetsSent : Nat
  delayCounter : UInt32
  sent : List (List UInt8)
deriving DecidableEq, Repr

/-- Conversion of an `int` to `size_t`. -/
def toSize (number : Int) : Nat :=
  (number % 2 ^ 64).toNat

/-- Number of data bytes in the next packet. The comparison is one of `size_t`
values. -/
def bytesToWrite (remainingBytes : Nat) (maxUdpPayload : Int) : Nat :=
  if remainingBytes > toSize maxUdpPayload then toSize maxUdpPayload else remainingBytes

/-- The 20% reduction after `EMSGSIZE`. -/
def reducePayload (maxUdpPayload : Int) : Int :=
  (maxUdpPayload * 8).tdiv 10

/-- One pass through the delay code with prescaling: the counter is
decremented as `uint32_t` and set back when it has run out. -/
def delayTick (delay delayPrescale delayCounter : UInt32) : UInt32 :=
  if delay > 0 then
    if delayCounter - 1 < 1 then delayPrescale else delayCounter - 1
  else delayCounter

/-! ### Small laws -/

theorem toSize_of_nonneg {number : Int} (atLeast : 0 ≤ number) (below : number < 2 ^ 64) :
    toSize number = number.toNat := by
  rw [toSize, Int.emod_eq_of_lt atLeast below]

theorem bytesToWrite_le (remainingBytes : Nat) (maxUdpPayload : Int) :
    bytesToWrite remainingBytes maxUdpPayload ≤ remainingBytes := by
  unfold bytesToWrite
  split_ifs <;> omega

theorem bytesToWrite_le_toSize (remainingBytes : Nat) (maxUdpPayload : Int) :
    bytesToWrite remainingBytes maxUdpPayload ≤ toSize maxUdpPayload := by
  unfold bytesToWrite
  split_ifs <;> omega

theorem bytesToWrite_pos {remainingBytes : Nat} {maxUdpPayload : Int}
    (hasBytes : 0 < remainingBytes) (positive : 0 < toSize maxUdpPayload) :
    0 < bytesToWrite remainingBytes maxUdpPayload := by
  unfold bytesToWrite
  split_ifs <;> omega

theorem reducePayload_bounds {maxUdpPayload : Int} (positive : 1 ≤ maxUdpPayload) :
    0 ≤ reducePayload maxUdpPayload ∧ reducePayload maxUdpPayload < maxUdpPayload := by
  unfold reducePayload
  rw [Int.tdiv_eq_ediv_of_nonneg (by omega)]
  omega

end Dift.Packetize
