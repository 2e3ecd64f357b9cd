import Dift.Assemble.Packetized

/-!
Owns what packets of other ticks and sources do to a call of
`getPacketizedBuffer`. The call asks for the expected offset before it looks at
source and tick, so a foreign packet is passed over only when it happens to
carry that offset, and ends the call otherwise. Two runs are compared, one of
them without the foreign packets: their states agree up to the count of
rejected packets and the tick read last.
-/

namespace Dift.Assemble

open Dift.Foundation
open Dift.Wire

/-- A datagram with a whole header was received. -/
def Recv.IsPacket : Recv → Prop
  | .failed => False
  | .datagram bytes => reHeaderBytes ≤ bytes.length

instance : DecidablePred Recv.IsPacket
  | .failed => inferInstanceAs (Decidable False)
  | .datagram bytes => inferInstanceAs (Decidable (reHeaderBytes ≤ bytes.length))

namespace Packetized

/-- The datagram is of the given tick and source. -/
def belongs (host : ByteOrder) (tick : UInt64) (dataId : UInt16) : Recv → Bool
  | .failed => false
  | .datagram bytes =>
      (Complete.arrivedHeader host bytes).tick == tick &&
        (Complete.arrivedHeader host bytes).dataId == dataId

/-- How many of the datagrams are not of the given tick and source. -/
def foreignCount (host : ByteOrder) (tick : UInt64) (dataId : UInt16) (part : List Recv) : Nat :=
  part.countP fun recv => !belongs host tick dataId recv

/-- A stream that starts with a packet of one tick and source; what follows may
hold packets of others. -/
structure Interspersed (host : ByteOrder) where
  tick : UInt64
  dataId : UInt16
  first : Recv
  others : List Recv
  isPacket : ∀ recv ∈ first :: others, recv.IsPacket
  own : belongs host tick dataId first = true

namespace Interspersed

variable {host : ByteOrder} (stream : Interspersed host)

def isOwn (recv : Recv) : Bool :=
  belongs host stream.tick stream.dataId recv

def all : List Recv := stream.first :: stream.others

/-- The stream without the foreign packets. -/
def clean : List Recv := stream.first :: stream.others.filter stream.isOwn

/-- The number of foreign packets in some part of the stream. -/
def foreign (part : List Recv) : Nat :=
  foreignCount host stream.tick stream.dataId part

end Interspersed

/-- A packet of another tick or source than those of the call carries the
expected offset. -/
def OffsetExpected (args : PacketizedArgs) (state : State) : Recv → Prop
  | .failed => True
  | .datagram bytes =>
      state.veryFirstRead = false →
      ((Complete.arrivedHeader args.host bytes).dataId ≠ state.firstSrcId ∨
        (Complete.arrivedHeader args.host bytes).tick ≠ state.firstTick) →
      (Complete.arrivedHeader args.host bytes).offset = state.nextOffset

variable {args : PacketizedArgs} {tick : UInt64} {dataId : UInt16}

theorem belongs_iff {host : ByteOrder} {bytes : List UInt8} :
    belongs host tick dataId (.datagram bytes) = true ↔
      (Complete.arrivedHeader host bytes).tick = tick ∧
        (Complete.arrivedHeader host bytes).dataId = dataId := by
  simp [belongs]

theorem foreignCount_cons_own {host : ByteOrder} {recv : Recv} {part : List Recv}
    (own : belongs host tick dataId recv = true) :
    foreignCount host tick dataId (recv :: part) = foreignCount host tick dataId part :=
  List.countP_cons_of_neg (by simp [own])

theorem foreignCount_cons_foreign {host : ByteOrder} {recv : Recv} {part : List Recv}
    (foreign : ¬ belongs host tick dataId recv = true) :
    foreignCount host tick dataId (recv :: part) = foreignCount host tick dataId part + 1 :=
  List.countP_cons_of_pos (by simpa using foreign)

theorem foreignCount_append {host : ByteOrder} (first second : List Recv) :
    foreignCount host tick dataId (first ++ second) =
      foreignCount host tick dataId first + foreignCount host tick dataId second :=
  List.countP_append

theorem round_packet (args : PacketizedArgs) (state : State) {bytes : List UInt8}
    (isPacket : (Recv.datagram bytes).IsPacket) :
    round args state (.datagram bytes) =
      handle args state (Complete.arrivedHeader args.host bytes) (Complete.arrivedPayload bytes) :=
  if_neg (Complete.long_take isPacket)

/-- A round that a packet of an unexpected offset ends, ends with an error. -/
theorem offsetExpected_of_round {state : State} {bytes : List UInt8}
    (isPacket : (Recv.datagram bytes).IsPacket)
    (fine : ∀ result, round args state (.datagram bytes) = .leave result → 0 ≤ result.ret) :
    OffsetExpected args state (.datagram bytes) := by
  intro past _
  by_contra unexpected
  have step : round args state (.datagram bytes) = .leave (({ state with
      packetTick := (Complete.arrivedHeader args.host bytes).tick } : State).error args
        outOfOrder) := by
    rw [round_packet args state isPacket, handle, plan_unexpected past unexpected]
    rfl
  exact absurd (fine _ step) (show ¬ (0 : Int) ≤ outOfOrder by decide)

/-! ### Two runs -/

/-- The state of a run and that of the run without foreign packets. -/
structure Alike (tick : UInt64) (dataId : UInt16) (full base : State) : Prop where
  same : base = { full with packetTick := base.packetTick, rejectedPkt := base.rejectedPkt }
  past : full.veryFirstRead = false
  source : full.firstSrcId = dataId
  tick : full.firstTick = tick
  room : maxEjfatMtu ≤ full.remainingLen.toNat
  nonneg : 0 ≤ full.totalBytesRead

theorem Alike.self {full base : State} (alike : Alike tick dataId full base) :
    Alike tick dataId full full :=
  { alike with same := rfl }

/-- Both runs treat a packet of their own tick and source the same way. -/
theorem round_own (args : PacketizedArgs) {full base : State}
    (alike : Alike tick dataId full base) {bytes : List UInt8}
    (isPacket : (Recv.datagram bytes).IsPacket)
    (own : belongs args.host tick dataId (.datagram bytes) = true) :
    Round.Match
      (fun fullAfter baseAfter =>
        Alike tick dataId fullAfter baseAfter ∧ fullAfter.rejectedPkt = full.rejectedPkt)
      (fun fullResult baseResult => fullResult = baseResult ∧ fullResult.ret ≠ noReassembly)
      (round args full (.datagram bytes)) (round args base (.datagram bytes)) := by
  rcases belongs_iff.mp own with ⟨sameTick, sameSource⟩
  rcases alike with ⟨same, past, source, ofTick, room, nonneg⟩
  generalize base.packetTick = packetTick at same
  generalize base.rejectedPkt = rejected at same
  subst same
  rw [round_packet args full isPacket, round_packet args _ isPacket]
  by_cases expected : (Complete.arrivedHeader args.host bytes).offset = full.nextOffset
  · have sourceHere := sameSource.trans source.symm
    have tickHere := sameTick.trans ofTick.symm
    have more : 0 ≤ full.totalBytesRead + (Complete.arrivedPayload bytes).length :=
      Int.add_nonneg nonneg (Int.natCast_nonneg _)
    have counted : full.totalBytesRead + (Complete.arrivedPayload bytes).length ≠ noReassembly :=
      ne_of_gt (lt_of_lt_of_le (by decide) more)
    rw [handle_copy (plan_expected past expected sourceHere tickHere),
      handle_copy (plan_expected (by exact past) (by exact expected) (by exact sourceHere)
        (by exact tickHere))]
    split_ifs with complete
    · exact .leave ⟨rfl, counted⟩
    · by_cases small : full.remainingLen - UInt64.ofNat (Complete.arrivedPayload bytes).length <
          UInt64.ofNat maxEjfatMtu
      · rw [checkRoom_of_lt (by exact small), checkRoom_of_lt (by exact small)]
        exact .leave ⟨rfl, counted⟩
      · rw [checkRoom_of_not_lt (by exact small), checkRoom_of_not_lt (by exact small)]
        rw [UInt64.lt_iff_toNat_lt, not_lt] at small
        exact .again ⟨⟨rfl, rfl, source, ofTick, small, more⟩, rfl⟩
  · unfold handle
    rw [plan_unexpected past expected, plan_unexpected (by exact past) (by exact expected)]
    exact .leave ⟨rfl, show outOfOrder ≠ noReassembly by decide⟩

/-- A foreign packet ends the call when it is unexpected or one too many, and is
passed over otherwise. -/
theorem round_foreign (args : PacketizedArgs) {full base : State}
    (alike : Alike tick dataId full base) {bytes : List UInt8}
    (isPacket : (Recv.datagram bytes).IsPacket)
    (foreign : ¬ belongs args.host tick dataId (.datagram bytes) = true) :
    (¬ OffsetExpected args full (.datagram bytes) ∧
      ∃ result, round args full (.datagram bytes) = .leave result ∧ result.ret = outOfOrder) ∨
    (100 ≤ full.rejectedPkt + 1 ∧
      ∃ result, round args full (.datagram bytes) = .leave result) ∨
    (OffsetExpected args full (.datagram bytes) ∧
      ∃ next, round args full (.datagram bytes) = .again next ∧
        Alike tick dataId next base ∧ next.rejectedPkt = full.rejectedPkt + 1) := by
  have other : (Complete.arrivedHeader args.host bytes).dataId ≠ full.firstSrcId ∨
      (Complete.arrivedHeader args.host bytes).tick ≠ full.firstTick := by
    rw [belongs_iff, not_and_or] at foreign
    rw [alike.source, alike.tick]
    exact foreign.symm
  rw [round_packet args full isPacket, handle]
  by_cases expected : (Complete.arrivedHeader args.host bytes).offset = full.nextOffset
  · rw [plan_foreign alike.past expected other]
    dsimp only
    by_cases many : 100 ≤ full.rejectedPkt + 1
    · rw [if_pos many]
      exact .inr (.inl ⟨many, _, rfl⟩)
    · have room : ¬ full.remainingLen < UInt64.ofNat maxEjfatMtu := by
        rw [UInt64.lt_iff_toNat_lt, not_lt]
        exact alike.room
      rw [if_neg many, checkRoom_of_not_lt (by exact room)]
      exact .inr (.inr ⟨fun _ _ => expected, _, rfl,
        ⟨alike.same, alike.past, alike.source, alike.tick, alike.room, alike.nonneg⟩, rfl⟩)
  · rw [plan_unexpected alike.past expected]
    exact .inl ⟨fun meets => expected (meets alike.past other), _, rfl, rfl⟩

/-- A run ends as the one without foreign packets exactly when every foreign
packet it reads is expected. -/
theorem feed_filtered (args : PacketizedArgs) {others : List Recv}
    (packets : ∀ recv ∈ others, recv.IsPacket) {full base : State}
    (alike : Alike tick dataId full base) {outcome : PacketizedOutcome} {rest : List Recv}
    (clean : feed (round args) base (others.filter (belongs args.host tick dataId)) =
      .left outcome rest)
    (success : 0 ≤ outcome.ret)
    (few : full.rejectedPkt + foreignCount args.host tick dataId others < 100) :
    (∃ unread, feed (round args) full others = .left outcome unread) ↔
      Along (round args) (OffsetExpected args) full others := by
  induction others generalizing full base with
  | nil => cases clean
  | cons recv others inductionHypothesis =>
      have later : ∀ other ∈ others, other.IsPacket := fun other member =>
        packets other (List.mem_cons_of_mem _ member)
      cases recv with
      | failed => exact absurd (packets .failed (by simp)) id
      | datagram bytes =>
          have isPacket := packets (.datagram bytes) (by simp)
          by_cases own : belongs args.host tick dataId (.datagram bytes) = true
          · rw [List.filter_cons_of_pos own] at clean
            rw [foreignCount_cons_own own] at few
            have matched := round_own args alike isPacket own
            have meets : OffsetExpected args full (.datagram bytes) := by
              rcases belongs_iff.mp own with ⟨sameTick, sameSource⟩
              rintro - (other | other)
              · exact absurd (sameSource.trans alike.source.symm) other
              · exact absurd (sameTick.trans alike.tick.symm) other
            cases fullStep : round args full (.datagram bytes) <;>
              cases baseStep : round args base (.datagram bytes) <;>
              rw [fullStep, baseStep] at matched <;> cases matched
            case again.again after baseAfter matched =>
              rcases matched with ⟨alikeAfter, kept⟩
              rw [feed_cons_of_again baseStep] at clean
              rw [feed_cons_of_again fullStep, along_cons_of_again fullStep,
                inductionHypothesis later alikeAfter clean (by rw [kept]; exact few)]
              simp [meets]
            case leave.leave result baseResult matched =>
              rw [feed_cons_of_leave baseStep] at clean
              cases clean
              rw [feed_cons_of_leave fullStep, along_cons_of_leave fullStep, matched.1]
              simp [meets]
          · rw [List.filter_cons_of_neg own] at clean
            rw [foreignCount_cons_foreign own] at few
            rcases round_foreign args alike isPacket own with
              ⟨unexpected, result, step, fails⟩ | ⟨many, -⟩ |
                ⟨expected, next, step, alikeNext, count⟩
            · rw [feed_cons_of_leave step, along_cons_of_leave step]
              constructor
              · intro both
                obtain ⟨unread, ends⟩ := both
                cases ends
                rw [fails] at success
                exact absurd success (by decide)
              · intro meets
                exact absurd meets unexpected
            · omega
            · rw [feed_cons_of_again step, along_cons_of_again step,
                inductionHypothesis later alikeNext clean (by rw [count]; omega)]
              simp [expected]

/-! ### One run -/

/-- Past the first read of a run, no more packets are rejected than foreign ones
read. -/
def Counted (host : ByteOrder) (tick : UInt64) (dataId : UInt16) (seen : List Recv)
    (state : State) : Prop :=
  Alike tick dataId state state ∧ state.rejectedPkt ≤ foreignCount host tick dataId seen

/-- The call gives up only after a hundred foreign packets. -/
def GivesUpLate (host : ByteOrder) (tick : UInt64) (dataId : UInt16) (seen : List Recv)
    (outcome : PacketizedOutcome) : Prop :=
  outcome.ret = noReassembly → 100 ≤ foreignCount host tick dataId seen

theorem round_counted {state : State} {seen : List Recv}
    (counted : Counted args.host tick dataId seen state) {recv : Recv} (isPacket : recv.IsPacket) :
    (∀ after, round args state recv = .again after →
      Counted args.host tick dataId (seen ++ [recv]) after) ∧
    ∀ result, round args state recv = .leave result →
      GivesUpLate args.host tick dataId (seen ++ [recv]) result := by
  rcases counted with ⟨alike, bounded⟩
  cases recv with
  | failed => exact absurd isPacket id
  | datagram bytes =>
      unfold Counted GivesUpLate
      rw [foreignCount_append]
      by_cases own : belongs args.host tick dataId (.datagram bytes) = true
      · have matched := round_own args alike isPacket own
        cases step : round args state (.datagram bytes) with
        | again next =>
            rw [step] at matched
            refine ⟨fun after same => ?_, nofun⟩
            cases same
            cases matched with
            | again matched => exact ⟨matched.1, matched.2 ▸ Nat.le_add_right_of_le bounded⟩
        | leave result =>
            rw [step] at matched
            refine ⟨nofun, fun other same gaveUp => ?_⟩
            cases same
            cases matched with
            | leave matched => exact absurd gaveUp matched.2
      · rw [foreignCount_cons_foreign own]
        rcases round_foreign args alike isPacket own with
          ⟨-, result, step, late⟩ | ⟨many, result, step⟩ | ⟨-, next, step, alikeNext, count⟩
        · rw [step]
          refine ⟨nofun, fun other same gaveUp => ?_⟩
          cases same
          exact absurd (late.symm.trans gaveUp) (by decide)
        · rw [step]
          exact ⟨nofun, fun other same _ => by omega⟩
        · rw [step]
          refine ⟨fun after same => ?_, nofun⟩
          cases same
          exact ⟨alikeNext.self, by omega⟩

theorem feed_givesUpLate {others unread : List Recv} (packets : ∀ recv ∈ others, recv.IsPacket)
    {state : State} (alike : Alike tick dataId state state) (fresh : state.rejectedPkt = 0)
    {result : PacketizedOutcome} (left : feed (round args) state others = .left result unread) :
    ∃ seen, others = seen ++ unread ∧ GivesUpLate args.host tick dataId seen result := by
  have isPacket : ∀ seen token rest, others = seen ++ token :: rest → token.IsPacket := by
    intro seen token rest split
    exact packets token (by simp [split])
  have again : ∀ seen token rest before after, others = seen ++ token :: rest →
      Counted args.host tick dataId seen before → round args before token = .again after →
      Counted args.host tick dataId (seen ++ [token]) after :=
    fun seen token rest before after split counted step =>
      (round_counted counted (isPacket seen token rest split)).1 after step
  have leave : ∀ seen token rest before value, others = seen ++ token :: rest →
      Counted args.host tick dataId seen before → round args before token = .leave value →
      GivesUpLate args.host tick dataId (seen ++ [token]) value :=
    fun seen token rest before value split counted step =>
      (round_counted counted (isPacket seen token rest split)).2 value step
  rcases feed_invariant _ _ again leave ⟨alike, fresh.le.trans (Nat.zero_le _)⟩ with
    ⟨final, waiting, -⟩ | ⟨value, seen, rest, finished, split, late⟩
  · rw [left] at waiting
    cases waiting
  · rw [left] at finished
    cases finished
    exact ⟨seen, split, late⟩

/-! ### The first packet -/

/-- Past a first read of another tick or source, none of the stream's own
packets is accepted. -/
structure Hopeless (tick : UInt64) (dataId : UInt16) (state : State) : Prop where
  past : state.veryFirstRead = false
  room : ¬ state.remainingLen < UInt64.ofNat maxEjfatMtu
  other : dataId ≠ state.firstSrcId ∨ tick ≠ state.firstTick

theorem round_hopeless (args : PacketizedArgs) {state : State}
    (hopeless : Hopeless tick dataId state) {bytes : List UInt8}
    (isPacket : (Recv.datagram bytes).IsPacket)
    (own : belongs args.host tick dataId (.datagram bytes) = true) :
    (∃ result, round args state (.datagram bytes) = .leave result ∧ result.ret < 0) ∨
      ∃ next, round args state (.datagram bytes) = .again next ∧ Hopeless tick dataId next := by
  rcases belongs_iff.mp own with ⟨rfl, rfl⟩
  rw [round_packet args state isPacket, handle]
  by_cases expected : (Complete.arrivedHeader args.host bytes).offset = state.nextOffset
  · rw [plan_foreign hopeless.past expected hopeless.other]
    dsimp only
    by_cases many : 100 ≤ state.rejectedPkt + 1
    · rw [if_pos many]
      exact .inl ⟨_, rfl, show noReassembly < 0 by decide⟩
    · rw [if_neg many, checkRoom_of_not_lt (by exact hopeless.room)]
      exact .inr ⟨_, rfl, hopeless.past, hopeless.room, hopeless.other⟩
  · rw [plan_unexpected hopeless.past expected]
    exact .inl ⟨_, rfl, show outOfOrder < 0 by decide⟩

theorem feed_hopeless {others unread : List Recv} (packets : ∀ recv ∈ others, recv.IsPacket)
    (own : ∀ recv ∈ others, belongs args.host tick dataId recv = true) {state : State}
    (hopeless : Hopeless tick dataId state) {result : PacketizedOutcome}
    (left : feed (round args) state others = .left result unread) : result.ret < 0 := by
  induction others generalizing state with
  | nil => cases left
  | cons recv others inductionHypothesis =>
      cases recv with
      | failed => exact absurd (packets .failed (by simp)) id
      | datagram bytes =>
          rcases round_hopeless args hopeless
              (packets (.datagram bytes) (by simp)) (own (.datagram bytes) (by simp)) with
            ⟨value, step, fails⟩ | ⟨next, step, hopelessNext⟩
          · rw [feed_cons_of_leave step] at left
            cases left
            exact fails
          · rw [feed_cons_of_again step] at left
            exact inductionHypothesis (fun other member => packets other (by simp [member]))
              (fun other member => own other (by simp [member])) hopelessNext left

/-- The call goes on after the first packet of the stream as the run without
foreign packets does, unless none of the stream is for it. -/
theorem round_first {state after : State} (nonneg : 0 ≤ state.totalBytesRead)
    {bytes : List UInt8} (isPacket : (Recv.datagram bytes).IsPacket)
    (own : belongs args.host tick dataId (.datagram bytes) = true)
    (step : round args state (.datagram bytes) = .again after) :
    Alike tick dataId after after ∧ after.rejectedPkt = state.rejectedPkt ∨
      Hopeless tick dataId after := by
  rcases belongs_iff.mp own with ⟨rfl, rfl⟩
  rw [round_packet args state isPacket] at step
  cases planned : plan state (Complete.arrivedHeader args.host bytes) with
  | outOfOrder => simp [handle, planned] at step
  | reject next =>
      rcases plan_reject planned with ⟨past, -, other, rfl⟩
      simp only [handle, planned] at step
      split_ifs at step
      rcases checkRoom_again step with ⟨rfl, room⟩
      refine .inr ⟨past, ?_, other⟩
      rw [UInt64.lt_iff_toNat_lt, not_lt]
      exact room
  | copy ready =>
      rw [handle_copy planned] at step
      split_ifs at step
      rcases checkRoom_again step with ⟨rfl, room⟩
      have more : 0 ≤ state.totalBytesRead + (Complete.arrivedPayload bytes).length :=
        Int.add_nonneg nonneg (Int.natCast_nonneg _)
      rcases plan_copy planned with ⟨-, -, rfl⟩ | ⟨-, -, source, ofTick, rfl⟩
      · exact .inl ⟨⟨rfl, rfl, rfl, rfl, room, more⟩, rfl⟩
      · exact .inl ⟨⟨rfl, rfl, source.symm, ofTick.symm, room, more⟩, rfl⟩

/-- What holds of a call holds of its loop, whatever the state it begins in. -/
theorem feed_interspersed (args : PacketizedArgs) (stream : Interspersed args.host)
    {begin : State} (nonneg : 0 ≤ begin.totalBytesRead) (fresh : begin.rejectedPkt = 0)
    {outcome : PacketizedOutcome} {rest : List Recv}
    (clean : feed (round args) begin stream.clean = .left outcome rest)
    (success : 0 ≤ outcome.ret) :
    (stream.foreign stream.others < 100 →
      ((∃ unread, feed (round args) begin stream.all = .left outcome unread) ↔
        Along (round args) (OffsetExpected args) begin stream.all)) ∧
    ∀ result unread, feed (round args) begin stream.all = .left result unread →
      result.ret = noReassembly →
      ∃ seen, stream.all = seen ++ unread ∧ 100 ≤ stream.foreign seen := by
  rcases stream with ⟨tick, dataId, first, others, isPacket, own⟩
  have later : ∀ other ∈ others, other.IsPacket := fun other member =>
    isPacket other (List.mem_cons_of_mem _ member)
  cases first with
  | failed => cases own
  | datagram bytes =>
      have isPacketFirst := isPacket (.datagram bytes) (by simp)
      have filtered : feed (round args) begin
          (.datagram bytes :: others.filter (belongs args.host tick dataId)) =
            .left outcome rest := clean
      unfold Interspersed.all Interspersed.foreign
      dsimp only
      cases step : round args begin (.datagram bytes) with
      | leave value =>
          rw [feed_cons_of_leave step] at filtered
          cases filtered
          have meets := offsetExpected_of_round isPacketFirst fun result same => by
            rw [step] at same
            cases same
            exact success
          rw [feed_cons_of_leave step, along_cons_of_leave step]
          refine ⟨fun _ => ⟨fun _ => meets, fun _ => ⟨_, rfl⟩⟩, fun other unread same late => ?_⟩
          cases same
          rw [late] at success
          exact absurd success (by decide)
      | again next =>
          rw [feed_cons_of_again step] at filtered
          have meets := offsetExpected_of_round isPacketFirst fun result same => by
            rw [step] at same
            cases same
          rw [feed_cons_of_again step, along_cons_of_again step]
          rcases round_first nonneg isPacketFirst own step with ⟨alike, kept⟩ | hopeless
          · have unrejected : next.rejectedPkt = 0 := kept.trans fresh
            constructor
            · intro few
              rw [feed_filtered args later alike filtered success (by rwa [unrejected, Nat.zero_add])]
              simp [meets]
            · intro result unread left late
              rcases feed_givesUpLate later alike unrejected left with ⟨seen, rfl, many⟩
              refine ⟨.datagram bytes :: seen, rfl, ?_⟩
              rw [foreignCount_cons_own own]
              exact many late
          · have fails := feed_hopeless
              (fun other member => later other (List.mem_of_mem_filter member))
              (fun other member => List.of_mem_filter member) hopeless filtered
            omega

/-- A call that reads a stream without the foreign packets successfully reads
the whole stream to the same effect exactly when every foreign packet it gets
to carries the offset expected at that moment, and gives up only after a
hundred of them. -/
theorem foreign_iff (args : PacketizedArgs) (stream : Interspersed args.host)
    {outcome : PacketizedOutcome} {rest : List Recv}
    (clean : getPacketizedBuffer args stream.clean = .left outcome rest)
    (success : 0 ≤ outcome.ret) :
    (stream.foreign stream.others < 100 →
      ((∃ unread, getPacketizedBuffer args stream.all = .left outcome unread) ↔
        AlongCall args (OffsetExpected args) stream.all)) ∧
    ∀ result unread, getPacketizedBuffer args stream.all = .left result unread →
      result.ret = noReassembly →
      ∃ seen, stream.all = seen ++ unread ∧ 100 ≤ stream.foreign seen := by
  unfold getPacketizedBuffer at clean ⊢
  unfold AlongCall
  cases entry : checkRoom args (start args) with
  | leave result =>
      rw [entry] at clean
      cases clean
      refine ⟨fun _ => ⟨fun _ => trivial, fun _ => ⟨_, rfl⟩⟩, fun other unread same late => ?_⟩
      cases same
      rw [late] at success
      exact absurd success (by decide)
  | again begin =>
      rw [entry] at clean
      have isStart := (checkRoom_again entry).1
      have nonneg : 0 ≤ begin.totalBytesRead := by
        rw [isStart]
        exact le_rfl
      have fresh : begin.rejectedPkt = 0 := by
        rw [isStart]
        rfl
      exact feed_interspersed args stream nonneg fresh clean success

/-- A call with room for two jumbo frames. -/
def roomyCall : PacketizedArgs := { sampleCall with bufLen := 20000 }

/-- Two packets of one tick and source with a packet of another tick between
them, whose offset is neither's. -/
def disturbed : Interspersed .little where
  tick := 5
  dataId := 7
  first := Packet.recv ⟨2, 0, 5, 7, 0, 2, [10]⟩
  others := [Packet.recv ⟨2, 0, 6, 7, 5, 9, [30]⟩, Packet.recv ⟨2, 0, 5, 7, 1, 2, [20]⟩]
  isPacket := by
    intro recv member
    simp only [List.mem_cons, List.not_mem_nil, or_false] at member
    rcases member with rfl | rfl | rfl <;> decide
  own := by decide

/-- What the call makes of the two packets alone. -/
def undisturbed : PacketizedOutcome where
  ret := 2
  dataBuf := (sampleCall.dataBuf.write 0 [10]).write 1 [20]
  last := true
  srcId := 7
  tick := 5
  offset := 2
  packetCount := 2

theorem foreign_iff_sample :
    (disturbed.foreign disturbed.others < 100 →
      ((∃ unread, getPacketizedBuffer roomyCall disturbed.all = .left undisturbed unread) ↔
        AlongCall roomyCall (OffsetExpected roomyCall) disturbed.all)) ∧
    ∀ result unread, getPacketizedBuffer roomyCall disturbed.all = .left result unread →
      result.ret = noReassembly →
      ∃ seen, disturbed.all = seen ++ unread ∧ 100 ≤ disturbed.foreign seen :=
  @foreign_iff roomyCall disturbed undisturbed [] rfl (by decide)

/-- One packet of another tick ends a call that succeeds without it. -/
theorem not_undisturbed :
    getPacketizedBuffer roomyCall disturbed.clean = .left undisturbed [] ∧
      disturbed.foreign disturbed.others = 1 ∧
      ∃ result unread, getPacketizedBuffer roomyCall disturbed.all = .left result unread ∧
        result.ret = outOfOrder := by
  exact ⟨rfl, by decide, _, _, rfl, rfl⟩

end Packetized

end Dift.Assemble
