import Dift.Packetize.SendNew
import Dift.Packetize.Version1

/-!
Owns a series of calls that sends one payload in consecutive pieces, the way
the senders' documentation describes it: `firstBuffer` only on the first call,
`lastBuffer` only on the last, `*offset` starting at 0 and fed back from call to
call. A series of the version 2 copying sender is shown to send the pieces of
the whole payload, and a series of version 1 senders to number and mark its
packets as one sequence.
-/

namespace Dift.Packetize

open Dift.Foundation
open Dift.Wire

/-- What the caller hands over in one call of a series: where the next piece of
the payload lies in its memory, and the delay counter. -/
structure Portion where
  memory : Mem
  dataBuffer : Nat
  dataLen : Nat
  delayCounter : UInt32

/-- The data of a portion. -/
def Portion.data (portion : Portion) : List UInt8 :=
  portion.memory.read portion.dataBuffer portion.dataLen

/-- The payload that some portions make up. -/
def payloadOf (portions : List Portion) : List UInt8 :=
  (portions.map Portion.data).flatten

@[simp] theorem payloadOf_cons (portion : Portion) (portions : List Portion) :
    payloadOf (portion :: portions) = portion.data ++ payloadOf portions := by
  simp [payloadOf]

@[simp] theorem payloadOf_nil : payloadOf [] = [] := rfl

/-- One call of a series. -/
structure Call where
  portion : Portion
  offset : UInt32
  firstBuffer : Bool
  lastBuffer : Bool

/-- The arguments of one call of a series; the others are the same in all
calls. -/
def Call.args (call : Call) (shared : SendArgs) : SendArgs :=
  { shared with
    memory := call.portion.memory
    dataBuffer := call.portion.dataBuffer
    dataLen := call.portion.dataLen
    delayCounter := call.portion.delayCounter
    offset := call.offset
    firstBuffer := call.firstBuffer
    lastBuffer := call.lastBuffer }

/-- Calls that send the given portions one after the other. The flag says
whether the first call of the series is still to come. -/
inductive Series (call : Call → SendOutcome → Prop) :
    Bool → UInt32 → List Portion → List SendOutcome → Prop where
  | last {first offset portion outcome} (returns : call ⟨portion, offset, first, true⟩ outcome) :
      Series call first offset [portion] [outcome]
  | more {first offset portion outcome next portions outcomes}
      (returns : call ⟨portion, offset, first, false⟩ outcome)
      (rest : Series call false outcome.offset (next :: portions) outcomes) :
      Series call first offset (portion :: next :: portions) (outcome :: outcomes)

/-- When every call returns, so does every series. -/
theorem exists_series {call : Call → SendOutcome → Prop}
    (returns : ∀ one, ∃ outcome, call one outcome) (portion : Portion) (portions : List Portion)
    (first : Bool) (offset : UInt32) :
    ∃ outcomes, Series call first offset (portion :: portions) outcomes := by
  induction portions generalizing portion first offset with
  | nil =>
      obtain ⟨outcome, ends⟩ := returns ⟨portion, offset, first, true⟩
      exact ⟨[outcome], .last ends⟩
  | cons next rest inductionHypothesis =>
      obtain ⟨outcome, ends⟩ := returns ⟨portion, offset, first, false⟩
      obtain ⟨outcomes, series⟩ := inductionHypothesis next false outcome.offset
      exact ⟨outcome :: outcomes, .more ends series⟩

/-- All datagrams of a series. -/
def allSent (outcomes : List SendOutcome) : List (List UInt8) :=
  outcomes.flatMap SendOutcome.sent

namespace SendNew

def callArgs (args : SendNewArgs) (call : Call) : SendNewArgs :=
  { args with toSendArgs := call.args args.toSendArgs }

/-- A series of calls that share all other arguments. -/
def SendsSeries (socket : Socket) (args : SendNewArgs) (portions : List Portion)
    (outcomes : List SendOutcome) : Prop :=
  Series (fun call outcome => SendNewReturns socket (callArgs args call) outcome) true 0
    portions outcomes

/-- Only the offset modulo `2^32` is seen on the wire. -/
theorem datagrams_congr (args : SendNewArgs) {first second : Nat}
    (same : UInt32.ofNat first = UInt32.ofNat second) (pieces : List (List UInt8)) :
    datagrams args first pieces = datagrams args second pieces := by
  induction pieces generalizing first second with
  | nil => rfl
  | cons piece rest inductionHypothesis =>
      have next : UInt32.ofNat (first + piece.length) = UInt32.ofNat (second + piece.length) := by
        rw [UInt32.ofNat_add, same, ← UInt32.ofNat_add]
      have tail := inductionHypothesis next
      simp only [datagrams, layout, List.map_cons] at tail ⊢
      rw [same, tail]

theorem datagrams_append (args : SendNewArgs) (offset : Nat) (first second : List (List UInt8)) :
    datagrams args offset (first ++ second) =
      datagrams args offset first ++ datagrams args (offset + first.flatten.length) second := by
  simp [datagrams, layout_append]

/-- What a series that sent everything leaves behind. -/
structure SeriesSent (args : SendNewArgs) (offset : UInt32) (portions : List Portion)
    (pieces : List (List UInt8)) (outcomes : List SendOutcome) : Prop where
  ret : ∀ outcome ∈ outcomes, outcome.ret = 0
  sent : allSent outcomes = datagrams args offset.toNat pieces
  data : pieces.flatten = payloadOf portions
  sized : ∀ piece ∈ pieces, piece ≠ [] ∧ piece.length ≤ toSize args.maxUdpPayload

variable {args : SendNewArgs}
variable (bounds : 1 ≤ args.maxUdpPayload ∧ args.maxUdpPayload ≤ 65500)

include bounds

/-- A single call on an accepting socket sends a nonempty portion. -/
private theorem call_sent {call : Call}
    (nonempty : 0 < call.portion.dataLen) {outcome : SendOutcome}
    (returns : SendNewReturns .accepting (callArgs args call) outcome) :
    ∃ pieces, SeriesSent args call.offset [call.portion] pieces [outcome] ∧
      outcome.offset = call.offset + UInt32.ofNat call.portion.dataLen := by
  obtain ⟨pieces, expected, ends, sentAll⟩ := returns_sentAll (callArgs args call) bounds
  obtain rfl := Returns.unique returns ends
  refine ⟨pieces, ⟨by simpa using sentAll.ret, ?_, ?_, ?_⟩, sentAll.offset⟩
  · rw [allSent, List.flatMap_singleton]
    exact sentAll.sent
  · rw [payloadOf_cons, payloadOf_nil, List.append_nil]
    exact sentAll.data
  · intro piece member
    obtain ⟨limit, hasBytes⟩ := sentAll.sized piece member
    exact ⟨hasBytes nonempty, limit⟩

omit bounds in
private theorem SeriesSent.cons {offset : UInt32} {portion : Portion} {portions : List Portion}
    {pieces later : List (List UInt8)} {outcome : SendOutcome} {outcomes : List SendOutcome}
    (here : SeriesSent args offset [portion] pieces [outcome])
    (place : outcome.offset = offset + UInt32.ofNat portion.dataLen)
    (rest : SeriesSent args outcome.offset portions later outcomes) :
    SeriesSent args offset (portion :: portions) (pieces ++ later) (outcome :: outcomes) where
  ret := by
    intro one member
    rcases List.mem_cons.mp member with rfl | inRest
    · exact here.ret one (by simp)
    · exact rest.ret one inRest
  sent := by
    have size : pieces.flatten.length = portion.dataLen := by
      simp [here.data, Portion.data]
    have same : UInt32.ofNat outcome.offset.toNat =
        UInt32.ofNat (offset.toNat + pieces.flatten.length) := by
      rw [UInt32.ofNat_toNat, place, size, UInt32.ofNat_add, UInt32.ofNat_toNat]
    have first : outcome.sent = datagrams args offset.toNat pieces := by
      simpa [allSent] using here.sent
    rw [datagrams_append, ← datagrams_congr args same, ← rest.sent, ← first]
    rfl
  data := by
    have first : pieces.flatten = portion.data := by simpa using here.data
    rw [List.flatten_append, first, rest.data, payloadOf_cons]
  sized := by
    intro piece member
    rcases List.mem_append.mp member with before | after
    · exact here.sized piece before
    · exact rest.sized piece after

/-- With every send succeeding, a series over nonempty portions sends the
consecutive packets of the whole payload. -/
theorem series_sent {first : Bool} {offset : UInt32}
    {portions : List Portion} {outcomes : List SendOutcome}
    (nonempty : ∀ portion ∈ portions, 0 < portion.dataLen)
    (series : Series (fun call outcome => SendNewReturns .accepting (callArgs args call) outcome)
      first offset portions outcomes) :
    ∃ pieces, SeriesSent args offset portions pieces outcomes := by
  induction series with
  | last returns =>
      obtain ⟨pieces, sent, -⟩ := call_sent bounds (nonempty _ (by simp)) returns
      exact ⟨pieces, sent⟩
  | more returns _ inductionHypothesis =>
      obtain ⟨pieces, sent, place⟩ := call_sent bounds (nonempty _ (by simp)) returns
      obtain ⟨later, rest⟩ := inductionHypothesis fun portion member =>
        nonempty portion (List.mem_cons_of_mem _ member)
      exact ⟨pieces ++ later, sent.cons place rest⟩

/-- On an accepting socket every series of calls comes to an end. -/
theorem exists_sendsSeries {portions : List Portion}
    (hasPortions : portions ≠ []) : ∃ outcomes, SendsSeries .accepting args portions outcomes := by
  obtain ⟨portion, rest, rfl⟩ := List.exists_cons_of_ne_nil hasPortions
  refine exists_series (fun call => ?_) portion rest true 0
  obtain ⟨-, outcome, returns, -⟩ := returns_sentAll (callArgs args call) bounds
  exact ⟨outcome, returns⟩

end SendNew

/-! ### Version 1 -/

namespace Version1

/-- A series of calls, each by any of the four senders. -/
def SendsSeries (socket : Socket) (args : SendArgs) (portions : List Portion)
    (outcomes : List SendOutcome) : Prop :=
  Series (fun call outcome => ∃ sender : OldSender, sender.Returns socket (call.args args) outcome)
    true 0 portions outcomes

/-- The cuts of a series, from the given number on. -/
structure SeriesCut (args : SendArgs) (first : Bool) (offset : UInt32) (portions : List Portion)
    (pieces : List (List UInt8)) (outcomes : List SendOutcome) : Prop where
  sent : allSent outcomes =
    (Job.cutsOf (fun _ => 1) first true offset pieces).map (datagram args)
  data : pieces.flatten = payloadOf portions
  hasPieces : pieces ≠ []

/-- One successful call cuts its portion. -/
theorem call_cut {limit : Nat} (large : 35 ≤ limit) {args : SendArgs} {call : Call}
    (callable : Callable (call.args args)) {sender : OldSender} {outcome : SendOutcome}
    (returns : sender.Returns (.limited limit) (call.args args) outcome)
    (success : outcome.ret = 0) :
    ∃ pieces, pieces ≠ [] ∧ pieces.flatten = call.portion.data ∧
      outcome.sent = (Job.cutsOf (fun _ => 1) call.firstBuffer call.lastBuffer call.offset
        pieces).map (datagram args) ∧
      outcome.offset = Job.counterAfter (fun _ => 1) call.offset pieces := by
  obtain ⟨final, ends, reports⟩ := (implements large callable sender).explains returns
  obtain ⟨pieces, sent⟩ := Job.sent_of_returns callable.bounds
    (tame_limitedJob large (call.args args)) ends (reports.ret.symm.trans success)
  refine ⟨pieces, sent.hasPieces, sent.data, ?_, ?_⟩
  · rw [reports.sent, sent.cuts]
    rfl
  · rw [reports.offset, sent.offset]
    rfl

/-- A series whose calls all succeed cuts the whole payload. -/
theorem series_cut {limit : Nat} (large : 35 ≤ limit) {args : SendArgs} {first : Bool}
    {offset : UInt32} {portions : List Portion} {outcomes : List SendOutcome}
    (callable : ∀ portion ∈ portions, ∀ offset first last,
      Callable (Call.args ⟨portion, offset, first, last⟩ args))
    (series : Series (fun call outcome =>
      ∃ sender : OldSender, sender.Returns (.limited limit) (call.args args) outcome)
      first offset portions outcomes)
    (success : ∀ outcome ∈ outcomes, outcome.ret = 0) :
    ∃ pieces, SeriesCut args first offset portions pieces outcomes := by
  induction series with
  | last returns =>
      obtain ⟨sender, returns⟩ := returns
      obtain ⟨pieces, hasPieces, data, sent, -⟩ :=
        call_cut large (callable _ (by simp) _ _ _) returns (success _ (by simp))
      refine ⟨pieces, ?_, ?_, hasPieces⟩
      · rw [allSent, List.flatMap_singleton]
        exact sent
      · rw [data, payloadOf_cons, payloadOf_nil, List.append_nil]
  | more returns _ inductionHypothesis =>
      obtain ⟨sender, returns⟩ := returns
      obtain ⟨pieces, hasPieces, data, sent, next⟩ :=
        call_cut large (callable _ (by simp) _ _ _) returns (success _ (by simp))
      obtain ⟨later, rest⟩ := inductionHypothesis
        (fun portion member => callable portion (List.mem_cons_of_mem _ member))
        (fun outcome member => success outcome (List.mem_cons_of_mem _ member))
      refine ⟨pieces ++ later, ?_, ?_, by simp [hasPieces]⟩
      · rw [Job.cutsOf_append _ _ _ _ hasPieces rest.hasPieces, List.map_append, ← next, ← rest.sent, ← sent]
        rfl
      · rw [List.flatten_append, data, rest.data, ← payloadOf_cons]

/-- The cut at an index: consecutive numbers, one first and one last mark. -/
theorem cutsOf_getElem (first last : Bool) (offset : UInt32) (pieces : List (List UInt8))
    {index : Nat} (below : index < (Job.cutsOf (fun _ => 1) first last offset pieces).length) :
    ((Job.cutsOf (fun _ => 1) first last offset pieces)[index]).counter =
        offset + UInt32.ofNat index ∧
      ((Job.cutsOf (fun _ => 1) first last offset pieces)[index]).first =
        (first && index == 0) ∧
      ((Job.cutsOf (fun _ => 1) first last offset pieces)[index]).last =
        (last && index + 1 == pieces.length) := by
  induction pieces generalizing first offset index with
  | nil => simp [Job.cutsOf] at below
  | cons piece rest inductionHypothesis =>
      cases rest with
      | nil =>
          have zero : index = 0 := by simpa [Job.cutsOf] using below
          subst zero
          simp [Job.cutsOf]
      | cons next others =>
          cases index with
          | zero => simp [Job.cutsOf]
          | succ index =>
              have tail := inductionHypothesis false (offset + 1)
                (show index < _ by simpa [Job.cutsOf] using below)
              simp only [Job.cutsOf, List.getElem_cons_succ]
              refine ⟨?_, ?_, ?_⟩
              · rw [tail.1, UInt32.ofNat_add, UInt32.add_assoc, UInt32.add_comm 1]
                rfl
              · rw [tail.2.1]
                simp
              · rw [tail.2.2]
                simp

theorem map_data_cutsOf (advance : Nat → UInt32) (first last : Bool) (offset : UInt32)
    (pieces : List (List UInt8)) :
    (Job.cutsOf advance first last offset pieces).map Cut.data = pieces := by
  induction pieces generalizing first offset with
  | nil => rfl
  | cons piece rest inductionHypothesis =>
      cases rest with
      | nil => rfl
      | cons next others => simp [Job.cutsOf, inductionHypothesis]

/-- The four version 1 senders agree and number packets consecutively. On a
socket that accepts exactly the datagrams of at most `limit` bytes every call
gives the same datagrams, return value, offset and packet count whichever
sender makes it; and the datagrams of a series of successful calls, by any of
the senders, carry the numbers 0, 1, 2, …, the first mark on the first and the
last mark on the last of them. -/
theorem senders_agree (limit : Nat) (large : 35 ≤ limit) :
    (∀ args, Callable args → ∃ outcome : OldSender → SendOutcome,
      (∀ sender : OldSender, sender.Returns (.limited limit) args (outcome sender)) ∧
      ∀ one other, (outcome one).sent = (outcome other).sent ∧
        (outcome one).ret = (outcome other).ret ∧
        (outcome one).offset = (outcome other).offset ∧
        (outcome one).packetsSent = (outcome other).packetsSent) ∧
    ∀ (args : SendArgs) (portions : List Portion) (outcomes : List SendOutcome),
      1 ≤ args.maxUdpPayload ∧ args.maxUdpPayload ≤ 65500 →
      (∀ portion ∈ portions,
        headerBytesOld ≤ portion.dataBuffer ∧ portion.dataLen < 2 ^ 31) →
      SendsSeries (.limited limit) args portions outcomes →
      (∀ outcome ∈ outcomes, outcome.ret = 0) →
      (allSent outcomes).length < 2 ^ 32 →
      ∃ cuts : List Cut, allSent outcomes = cuts.map (datagram args) ∧
        (cuts.map Cut.data).flatten = payloadOf portions ∧
        ∀ index, (below : index < cuts.length) → cuts[index].counter.toNat = index ∧
          (cuts[index].first = true ↔ index = 0) ∧
          (cuts[index].last = true ↔ index + 1 = cuts.length) := by
  constructor
  · intro args callable
    obtain ⟨final, returns⟩ := Job.exists_returns callable.bounds (tame_limitedJob large args)
    have each : ∀ sender : OldSender, ∃ outcome, sender.Returns (.limited limit) args outcome ∧
        (limitedJob limit args).Reports outcome final := fun sender =>
      (implements large callable sender).completes returns
    choose outcome ends reports using each
    refine ⟨outcome, ends, fun one other => ⟨?_, ?_, ?_, ?_⟩⟩
    · rw [(reports one).sent, (reports other).sent]
    · rw [(reports one).ret, (reports other).ret]
    · rw [(reports one).offset, (reports other).offset]
    · rw [(reports one).packetsSent, (reports other).packetsSent]
  · intro args portions outcomes bounds suitable series success few
    obtain ⟨pieces, cut⟩ := series_cut large
      (fun portion member _ _ _ =>
        ⟨(suitable portion member).1, (suitable portion member).2, bounds⟩)
      series success
    rw [cut.sent, List.length_map] at few
    refine ⟨Job.cutsOf (fun _ => 1) true true 0 pieces, cut.sent, ?_, ?_⟩
    · rw [map_data_cutsOf, cut.data]
    · intro index below
      obtain ⟨counter, first, last⟩ := cutsOf_getElem true true 0 pieces below
      refine ⟨?_, ?_, ?_⟩
      · rw [counter, UInt32.zero_add]
        exact UInt32.toNat_ofNat_of_lt' (show index < 2 ^ 32 by omega)
      · simp [first]
      · simp [last, Job.cutsOf_length]

/-- Four bytes at address 34, in packets of at most 8 bytes. -/
def sampleArgs : SendArgs where
  host := .little
  memory := Memory.write (fun _ => 0) 34 [1, 2, 3, 4]
  stack := fun _ => 0
  dataBuffer := 34
  dataLen := 4
  maxUdpPayload := 8
  tick := 5
  protocol := 1
  entropy := 0
  version := 1
  dataId := 7
  offset := 0
  delay := 0
  delayPrescale := 1
  delayCounter := 0
  firstBuffer := true
  lastBuffer := true

def sampleOutcome : SendOutcome :=
  ⟨0, 2, 2, 0, [datagram sampleArgs ⟨0, true, false, [1, 2]⟩,
    datagram sampleArgs ⟨1, false, true, [3, 4]⟩]⟩

/-- On a socket that takes 36 bytes the sample goes out in two packets of two
bytes after four refusals. -/
theorem sampleOutcome_returns : OldSender.sendmsg.Returns (.limited 36) sampleArgs sampleOutcome :=
  ⟨9, by decide⟩

theorem senders_agree_sample :
    (∃ outcome : OldSender → SendOutcome,
      (∀ sender : OldSender, sender.Returns (.limited 36) sampleArgs (outcome sender)) ∧
      ∀ one other, (outcome one).sent = (outcome other).sent ∧
        (outcome one).ret = (outcome other).ret ∧
        (outcome one).offset = (outcome other).offset ∧
        (outcome one).packetsSent = (outcome other).packetsSent) ∧
    ∃ cuts : List Cut, allSent [sampleOutcome] = cuts.map (datagram sampleArgs) ∧
      (cuts.map Cut.data).flatten = [1, 2, 3, 4] ∧
      ∀ index, (below : index < cuts.length) → cuts[index].counter.toNat = index ∧
        (cuts[index].first = true ↔ index = 0) ∧
        (cuts[index].last = true ↔ index + 1 = cuts.length) :=
  ⟨(senders_agree 36 (by decide)).1 sampleArgs ⟨by decide, by decide, by decide⟩,
    (senders_agree 36 (by decide)).2 sampleArgs [⟨sampleArgs.memory, 34, 4, 0⟩] [sampleOutcome]
      (by decide) (by decide) (.last ⟨.sendmsg, sampleOutcome_returns⟩) (by decide) (by decide)⟩

end Version1

end Dift.Packetize
