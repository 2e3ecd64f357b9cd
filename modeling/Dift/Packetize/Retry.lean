import Dift.Packetize.FastNew

/-!
Owns the retry after `EMSGSIZE`. A job whose first packet is refused tries
again with 80% of the payload, and never again once a packet has gone out. On a
socket with a size limit the retries stop at a size that fits, because one byte
of data fits, and every later packet is no longer than the first one.
-/

namespace Dift.Packetize

open Dift.Foundation
open Dift.Wire

namespace Job

variable {job : Job} {limit : Nat}

/-- The socket takes exactly the datagrams of at most `limit` bytes. -/
def Limited (job : Job) (limit : Nat) : Prop :=
  ∀ attempts datagram, job.answer attempts datagram = acceptUpTo limit datagram

theorem Limited.tame (limited : job.Limited limit) (large : job.headerBytes + 1 ≤ limit) :
    job.Tame := by
  intro attempts datagram refused
  rw [limited, acceptUpTo] at refused
  split_ifs at refused with fits
  · exact absurd rfl refused
  · omega

/-- Once a packet has gone out, the next one fits as well. -/
structure Fitting (job : Job) (limit : Nat) (state : State) : Prop where
  next : state.first = false → job.headerBytes + state.count ≤ limit
  cuts : ∀ cut ∈ state.cuts, (job.bytes cut).length ≤ limit

theorem bytes_next_length (state : State) :
    (job.bytes (job.next state)).length = job.headerBytes + state.count := by
  rw [bytes_length, Job.next, List.length_take, min_eq_left (count_le state)]

/-- A packet is never longer than the one sent before it. -/
theorem count_send_le (state : State) : (job.send state).count ≤ state.count := by
  simp only [State.count, send, List.length_drop, bytesToWrite]
  split_ifs <;> omega

theorem Fitting.send {state : State} (fitting : Fitting job limit state)
    (fits : (job.bytes (job.next state)).length ≤ limit) :
    Fitting job limit (job.send state) where
  next := by
    intro _
    have smaller := @count_send_le job state
    rw [bytes_next_length] at fits
    omega
  cuts := by
    intro cut member
    rcases List.mem_append.mp member with before | last
    · exact fitting.cuts cut before
    · rw [List.mem_singleton.mp last]
      exact fits

/-- A job that may retry its first packet sends everything through a limited
socket, in datagrams that fit. -/
theorem Limited.succeeds (limited : job.Limited limit) (first : job.firstBuffer = true)
    {final : Outcome} (returns : Returns job.round job.start final) :
    final.ret = 0 ∧ ∀ cut ∈ final.cuts, (job.bytes cut).length ≤ limit := by
  refine returns.invariant (Fitting job limit)
    (fun final => final.ret = 0 ∧ ∀ cut ∈ final.cuts, (job.bytes cut).length ≤ limit) ?_ ?_ ?_
  · intro before after fitting step
    rcases round_again step with ⟨-, ⟨accepted, rfl⟩ | ⟨-, still, rfl⟩⟩
    · rw [limited, acceptUpTo] at accepted
      split_ifs at accepted with fits
      exact fitting.send fits
    · refine ⟨fun past => ?_, fitting.cuts⟩
      rw [show before.retry.first = before.first from rfl, still] at past
      cases past
  · intro state outcome fitting step
    unfold round at step
    split_ifs at step with running
    · rw [limited, acceptUpTo] at step
      split_ifs at step with fits
      simp only [true_and] at step
      -- A packet refused for its size is the first one, and is tried again.
      split_ifs at step with retried
      have past := fitting.next (by simpa using retried)
      rw [bytes_next_length] at fits
      exact absurd past fits
    · cases step
      exact ⟨rfl, fitting.cuts⟩
  · refine ⟨fun past => ?_, by simp [start]⟩
    rw [show job.start.first = job.firstBuffer from rfl, first] at past
    cases past

end Job

/-- A call that sent all its data through a socket with a size limit. -/
structure Delivered (limit : Nat) (args : SendNewArgs) (pieces : List (List UInt8))
    (outcome : SendOutcome) : Prop extends SendNew.SentAll args pieces outcome where
  packetsSent : outcome.packetsSent = outcome.sent.length
  fits : ∀ datagram ∈ outcome.sent, datagram.length ≤ limit

theorem SendNew.limited_job (limit : Nat) (args : SendNewArgs) :
    (SendNew.job (.limited limit) args).Limited limit := by
  intro attempts datagram
  simp [SendNew.job, Copying.job, SendNew.style, Socket.limited]

/-- What reports to the job of a call has delivered what the call was given. -/
theorem delivered_of_reports {limit : Nat} {args : SendNewArgs} (first : args.firstBuffer = true)
    (bounds : 1 ≤ args.maxUdpPayload ∧ args.maxUdpPayload ≤ 65500)
    (large : SendNew.allHeadersSize args + 1 ≤ limit) {final : Job.Outcome}
    (returns : Returns (SendNew.job (.limited limit) args).round
      (SendNew.job (.limited limit) args).start final)
    {outcome : SendOutcome} (reports : (SendNew.job (.limited limit) args).Reports outcome final) :
    ∃ pieces, Delivered limit args pieces outcome := by
  have limited := SendNew.limited_job limit args
  rcases limited.succeeds first returns with ⟨success, fits⟩
  rcases SendNew.sentAll_of_reports bounds (limited.tame large) returns success reports with
    ⟨pieces, all⟩
  refine ⟨pieces, all, ?_, ?_⟩
  · rw [reports.packetsSent, reports.sent, List.length_map]
  · intro datagram member
    rw [reports.sent] at member
    rcases List.mem_map.mp member with ⟨cut, among, rfl⟩
    exact fits cut among

/-- A call of one of the two senders of version 2 packets. The in-place sender
writes headers into the bytes before its buffer. -/
inductive Version2Call where
  | send (args : SendNewArgs)
  | fast (args : FastNewArgs) (scratch : headerBytes ≤ args.dataBuffer)

namespace Version2Call

/-- The call of the copying sender with the same arguments. -/
def args : Version2Call → SendNewArgs
  | send args => args
  | fast args _ => args.copying

/-- The call ends with the given outcome. -/
def Ends (socket : Socket) : Version2Call → SendOutcome → Prop
  | send args, outcome => SendNewReturns socket args outcome
  | fast args _, outcome => ∃ result, FastNewReturns socket args result ∧
      result.toSendOutcome = outcome

theorem implements {limit : Nat} (call : Version2Call)
    (large : SendNew.allHeadersSize call.args + 1 ≤ limit) :
    (SendNew.job (.limited limit) call.args).Implements (call.Ends (.limited limit)) := by
  cases call with
  | send args => exact SendNew.implements (.limited limit) args
  | fast args scratch =>
      exact InPlace.implements (FastNew.serves_job (.limited limit) args) scratch
        ((SendNew.limited_job limit args.copying).tame large)

end Version2Call

/-- Through a socket that takes datagrams of up to `limit` bytes, one byte of
data with its headers among them, a call that may send its first packet again
delivers its whole buffer. -/
theorem sendPacketizedBuffer_delivers (limit : Nat) (call : Version2Call)
    (first : call.args.firstBuffer = true)
    (bounds : 1 ≤ call.args.maxUdpPayload ∧ call.args.maxUdpPayload ≤ 65500)
    (large : SendNew.allHeadersSize call.args + 1 ≤ limit) :
    ∃ outcome pieces, call.Ends (.limited limit) outcome ∧
      Delivered limit call.args pieces outcome := by
  have tame := (SendNew.limited_job limit call.args).tame large
  rcases Job.exists_returns bounds tame with ⟨final, returns⟩
  rcases (call.implements large).completes returns with ⟨outcome, ends, reports⟩
  rcases delivered_of_reports first bounds large returns reports with ⟨pieces, delivered⟩
  exact ⟨outcome, pieces, ends, delivered⟩

theorem sendPacketizedBuffer_delivers_sample :
    (Version2Call.fast sampleFastNew (by decide)).args.firstBuffer = true ∧
      ∃ outcome pieces, (Version2Call.fast sampleFastNew (by decide)).Ends (.limited 37) outcome ∧
        Delivered 37 sampleFastNew.copying pieces outcome :=
  ⟨rfl, sendPacketizedBuffer_delivers 37 (.fast sampleFastNew (by decide)) rfl (by decide)
    (by decide)⟩

end Dift.Packetize
