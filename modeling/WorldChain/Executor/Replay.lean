import WorldChain.Executor.Coupling
import WorldChain.Wire.Collection

/-! A flashblock that the executor has taken, delivered to it once more. -/
namespace WorldChain.Executor.Replay
open Library.Overlay Library.Runs Wire.Primitives Wire.Collection
open Deps.Reth Deps.Calls Deps.Concrete
open Process Announced Coupling

variable {Tx Db Core : Type}

/-- What a call comes to; without a result it has not returned. -/
structure Outcome (Tx : Type) where
  result : Option (Except Failure Unit)
  events : List (Event Tx)

def perform (X : Crates Tx Db Core) (debugAssertions : Bool) (self : FlashblocksStateExecutor Tx) :
    Call Tx Db → FlashblocksStateExecutor Tx × List (Outcome Tx)
  | .publishBuiltPayload payload builtPayload _ =>
      let done := publishBuiltPayload self payload builtPayload
      (done.executor, [⟨some done.result, done.events⟩])
  | .registerPayloadEvents => (registerPayloadEvents self, [⟨some (.ok ()), []⟩])
  | .processFlashblock provider chainSpec fuel flashblock =>
      match processFlashblock X debugAssertions provider chainSpec fuel self flashblock with
      | none => (self, [⟨none, []⟩])
      | some done => (done.executor, [⟨some done.result, done.events⟩])

def delivered : Call Tx Db → Option Flashblock
  | .publishBuiltPayload payload _ _ => some ⟨payload⟩
  | .registerPayloadEvents => none
  | .processFlashblock _ _ _ flashblock => some flashblock

def Succeeds (X : Crates Tx Db Core) (debugAssertions : Bool) (self : FlashblocksStateExecutor Tx)
    (call : Call Tx Db) : Prop :=
  ∃ outcome ∈ (perform X debugAssertions self call).2, outcome.result = some (.ok ())

def SameTimestamps (timestamp : PayloadId → UInt64) (calls : List (Call Tx Db)) : Prop :=
  ∀ call ∈ calls, ∀ flashblock ∈ delivered call, flashblock.flashblock.index = 0 →
    ∀ base ∈ flashblock.base, base.timestamp = timestamp flashblock.payloadId

/-- The collection that the executor starts with is not continued. -/
def OpensFirst (reached : FlashblocksStateExecutor Tx × List (Outcome Tx)) (call : Call Tx Db) :
    Prop :=
  reached.1.inner.flashblocks = .default → ∀ flashblock ∈ delivered call,
    Flashblocks.default.isNewPayload flashblock ≠ .ok false

variable {X : Crates Tx Db Core} {debugAssertions : Bool}

/-! A call depends on the locked state only, and not on the pending block. -/

def view (done : Returned Tx) :
    Except Failure Unit × FlashblocksStateExecutorInner Tx × List (Event Tx) :=
  (done.result, done.executor.inner, done.events)

/-- Nothing is collected, and the latest payload can be lost, or the flashblock
becomes the last one and its payload the latest. -/
inductive Effect (inner : FlashblocksStateExecutorInner Tx) (call : Call Tx Db) (succeeds : Prop) :
    FlashblocksStateExecutorInner Tx → Prop
  | quiet (after : FlashblocksStateExecutorInner Tx)
      (hflashblocks : after.flashblocks = inner.flashblocks)
      (hlatest : after.latestPayload = inner.latestPayload ∨ after.latestPayload = none)
      (hknown : succeeds → ∀ flashblock ∈ delivered call,
        (alreadyProcessed inner flashblock).isSome) :
      Effect inner call succeeds after
  | pushed (flashblock : Flashblock) (isNew : Bool) (next : Flashblocks)
      (payload : OpBuiltPayload Tx) (hdelivered : delivered call = some flashblock)
      (hpush : inner.flashblocks.push flashblock = .ok (isNew, next))
      (hid : payload.id = flashblock.payloadId) :
      Effect inner call succeeds
        ⟨next, some (payload, flashblock.flashblock.index), inner.payloadEvents⟩

theorem succeeds_of_outcome {self : FlashblocksStateExecutor Tx} {call : Call Tx Db}
    {outcome : Outcome Tx} (houtcome : (perform X debugAssertions self call).2 = [outcome])
    (h : Succeeds X debugAssertions self call) : outcome.result = some (.ok ()) := by
  obtain ⟨found, hmem, hok⟩ := h
  rw [houtcome, List.mem_singleton] at hmem
  rwa [← hmem]

theorem perform_effect (self : FlashblocksStateExecutor Tx) (call : Call Tx Db) :
    Effect self.inner call (Succeeds X debugAssertions self call)
      (perform X debugAssertions self call).1.inner := by
  cases call with
  | registerPayloadEvents => exact .quiet _ rfl (.inl rfl) (fun _ _ hmem => by cases hmem)
  | publishBuiltPayload payload builtPayload id_eq =>
      rcases publishBuiltPayload_cases self payload builtPayload with
        ⟨e, heq⟩ | ⟨isNew, next, hpush, heq⟩
      · have houtcome : perform X debugAssertions self
            (.publishBuiltPayload payload builtPayload id_eq : Call Tx Db) =
              (self, [⟨some (.error e), []⟩]) := by
          simp only [perform, heq]
        rw [houtcome]
        refine .quiet _ rfl (.inl rfl) ?_
        intro hsucceeds
        cases succeeds_of_outcome (congrArg Prod.snd houtcome) hsucceeds
      · simp only [perform, heq]
        exact .pushed ⟨payload⟩ isNew next builtPayload rfl hpush id_eq
  | processFlashblock provider chainSpec fuel flashblock =>
      cases hdone : processFlashblock X debugAssertions provider chainSpec fuel self flashblock with
      | none =>
          have houtcome : perform X debugAssertions self
              (.processFlashblock provider chainSpec fuel flashblock) = (self, [⟨none, []⟩]) := by
            simp only [perform, hdone]
          rw [houtcome]
          refine .quiet _ rfl (.inl rfl) ?_
          intro hsucceeds
          cases succeeds_of_outcome (congrArg Prod.snd houtcome) hsucceeds
      | some done =>
          have houtcome : perform X debugAssertions self
              (.processFlashblock provider chainSpec fuel flashblock) =
                (done.executor, [⟨some done.result, done.events⟩]) := by
            simp only [perform, hdone]
          rw [houtcome]
          have hresult := fun hsucceeds =>
            succeeds_of_outcome (congrArg Prod.snd houtcome) hsucceeds
          cases processed hdone with
          | known payload hknown =>
              refine .quiet _ rfl (.inl rfl) ?_
              intro _ other hmem
              cases hmem
              rw [hknown]
              rfl
          | refused e => exact .quiet _ rfl (.inl rfl) fun hsucceeds => by cases hresult hsucceeds
          | failed isNew e events =>
              refine .quiet _ (opened_flashblocks self isNew) ?_ fun hsucceeds => by
                cases hresult hsucceeds
              cases isNew with
              | false => exact .inl rfl
              | true => exact .inr rfl
          | installed isNew payload next _ _ hbuilds _ hpush =>
              exact .pushed flashblock isNew next payload rfl hpush (builds_id hbuilds)

/-! The collection moves to payloads of ever later timestamps. -/

structure Follows (timestamp : PayloadId → UInt64) (inner : FlashblocksStateExecutorInner Tx) :
    Prop where
  latest : ∀ payload index, inner.latestPayload = some (payload, index) →
    payload.id = inner.flashblocks.payloadId ∧
      index.toNat + 1 = inner.flashblocks.toList.length
  base : inner.flashblocks = .default ∧ inner.latestPayload = none ∨
    inner.flashblocks.base.timestamp = timestamp inner.flashblocks.payloadId

/-- The flashblock is in the collection, or its payload came before the current one. -/
structure Passed (timestamp : PayloadId → UInt64) (flashblock : Flashblock)
    (inner : FlashblocksStateExecutorInner Tx) : Prop where
  follows : Follows timestamp inner
  base : inner.flashblocks.base.timestamp = timestamp inner.flashblocks.payloadId
  current : flashblock.payloadId = inner.flashblocks.payloadId →
    flashblock.flashblock.index.toNat < inner.flashblocks.toList.length
  earlier : flashblock.payloadId ≠ inner.flashblocks.payloadId →
    timestamp flashblock.payloadId < inner.flashblocks.base.timestamp

variable {timestamp : PayloadId → UInt64}

theorem follows_start (pendingBlock : Option (BuiltPayloadExecutedBlock Tx)) :
    Follows timestamp (FlashblocksStateExecutor.new pendingBlock).inner where
  latest _ _ h := by cases h
  base := .inl ⟨rfl, rfl⟩

/-- The step lemma for a push; only the default collection has a base of its own. -/
theorem Follows.push {inner : FlashblocksStateExecutorInner Tx} (h : Follows timestamp inner)
    {flashblock : Flashblock} {isNew : Bool} {next : Flashblocks} {payload : OpBuiltPayload Tx}
    {payloadEvents : Bool} (hpush : inner.flashblocks.push flashblock = .ok (isNew, next))
    (hid : payload.id = flashblock.payloadId)
    (htimestamp : flashblock.flashblock.index = 0 → ∀ base ∈ flashblock.base,
      base.timestamp = timestamp flashblock.payloadId)
    (hopens : inner.flashblocks = .default →
      Flashblocks.default.isNewPayload flashblock ≠ .ok false) :
    Follows timestamp ⟨next, some (payload, flashblock.flashblock.index), payloadEvents⟩ ∧
      next.base.timestamp = timestamp next.payloadId := by
  obtain ⟨hisNew, _, hpayloadId, htoList⟩ := push_ok hpush
  have hpushed := push_base hpush
  have hbase : next.base.timestamp = timestamp next.payloadId := by
    cases isNew with
    | true =>
        obtain ⟨_, hindex, _⟩ := isNewPayload_true hisNew
        rw [hpayloadId]
        exact htimestamp hindex next.base hpushed.1
    | false =>
        have hsame : next.base = inner.flashblocks.base := hpushed
        rcases h.base with ⟨hdefault, _⟩ | hbase
        · rw [hdefault] at hisNew
          exact (hopens hdefault hisNew).elim
        · rw [hsame, hbase, hpayloadId, (isNewPayload_false hisNew).1]
  refine ⟨⟨?_, .inr hbase⟩, hbase⟩
  intro latest index hlatest
  cases hlatest
  refine ⟨hid.trans hpayloadId.symm, ?_⟩
  cases isNew with
  | true =>
      rw [htoList, (isNewPayload_true hisNew).2.1]
      rfl
  | false =>
      simp [htoList, (isNewPayload_false hisNew).2]

theorem Follows.quiet {inner after : FlashblocksStateExecutorInner Tx} (h : Follows timestamp inner)
    (hflashblocks : after.flashblocks = inner.flashblocks)
    (hlatest : after.latestPayload = inner.latestPayload ∨ after.latestPayload = none) :
    Follows timestamp after := by
  constructor
  · intro payload index heq
    rw [hflashblocks]
    rcases hlatest with hsame | hnone
    · exact h.latest payload index (hsame.symm.trans heq)
    · rw [hnone] at heq
      cases heq
  · rw [hflashblocks]
    rcases h.base with ⟨hdefault, hnone⟩ | hbase
    · exact .inl ⟨hdefault, hlatest.elim (·.trans hnone) id⟩
    · exact .inr hbase

/-- A later payload leaves everything behind that the current one has passed. -/
theorem Passed.push {inner : FlashblocksStateExecutorInner Tx} {passed flashblock : Flashblock}
    (h : Passed timestamp passed inner) {isNew : Bool} {next : Flashblocks}
    (hpush : inner.flashblocks.push flashblock = .ok (isNew, next))
    (hbase : next.base.timestamp = timestamp next.payloadId) :
    (passed.payloadId = next.payloadId →
      passed.flashblock.index.toNat < next.toList.length) ∧
    (passed.payloadId ≠ next.payloadId →
      timestamp passed.payloadId < next.base.timestamp) := by
  obtain ⟨hisNew, _, hpayloadId, htoList⟩ := push_ok hpush
  have hpushed := push_base hpush
  cases isNew with
  | true =>
      have hlater : timestamp passed.payloadId < next.base.timestamp := by
        by_cases hcurrent : passed.payloadId = inner.flashblocks.payloadId
        · rw [hcurrent, ← h.base]
          exact hpushed.2
        · exact UInt64.lt_trans (h.earlier hcurrent) hpushed.2
      refine ⟨?_, fun _ => hlater⟩
      intro hsame
      rw [hsame, hbase] at hlater
      exact (UInt64.lt_irrefl _ hlater).elim
  | false =>
      have hsame : next.base = inner.flashblocks.base := hpushed
      rw [hpayloadId, (isNewPayload_false hisNew).1, hsame, htoList]
      refine ⟨?_, h.earlier⟩
      intro hcurrent
      have hlt := h.current hcurrent
      rw [if_neg Bool.false_ne_true, List.length_append]
      omega

theorem Passed.perform {self : FlashblocksStateExecutor Tx} {passed : Flashblock}
    (h : Passed timestamp passed self.inner) {call : Call Tx Db}
    (htimestamp : SameTimestamps timestamp [call]) (hopens : OpensFirst (self, []) call) :
    Passed timestamp passed (perform X debugAssertions self call).1.inner := by
  have heffect := @perform_effect _ _ _ X debugAssertions self call
  generalize (Replay.perform X debugAssertions self call).1.inner = after at heffect ⊢
  cases heffect with
  | quiet _ hflashblocks hlatest =>
      refine ⟨h.follows.quiet hflashblocks hlatest, ?_, ?_, ?_⟩
      · rw [hflashblocks]
        exact h.base
      · rw [hflashblocks]
        exact h.current
      · rw [hflashblocks]
        exact h.earlier
  | pushed flashblock isNew next payload hdelivered hpush hid =>
      obtain ⟨hfollows, hbase⟩ := h.follows.push hpush hid
        (htimestamp call List.mem_cons_self flashblock hdelivered)
        (fun hdefault => hopens hdefault flashblock hdelivered)
      obtain ⟨hcurrent, hearlier⟩ := h.push hpush hbase
      exact ⟨hfollows, hbase, hcurrent, hearlier⟩

theorem Follows.perform {self : FlashblocksStateExecutor Tx} (h : Follows timestamp self.inner)
    {call : Call Tx Db} (htimestamp : SameTimestamps timestamp [call])
    (hopens : OpensFirst (self, []) call) :
    Follows timestamp (perform X debugAssertions self call).1.inner := by
  have heffect := @perform_effect _ _ _ X debugAssertions self call
  generalize (Replay.perform X debugAssertions self call).1.inner = after at heffect ⊢
  cases heffect with
  | quiet _ hflashblocks hlatest => exact h.quiet hflashblocks hlatest
  | pushed flashblock isNew next payload hdelivered hpush hid =>
      exact (h.push hpush hid (htimestamp call List.mem_cons_self flashblock hdelivered)
        (fun hdefault => hopens hdefault flashblock hdelivered)).1

theorem alreadyProcessed_isSome {inner : FlashblocksStateExecutorInner Tx} {flashblock : Flashblock}
    (h : (alreadyProcessed inner flashblock).isSome) :
    ∃ payload index, inner.latestPayload = some (payload, index) ∧
      payload.id = flashblock.payloadId ∧ flashblock.flashblock.index ≤ index := by
  unfold alreadyProcessed at h
  cases hlatest : inner.latestPayload with
  | none =>
      rw [hlatest] at h
      cases h
  | some latest =>
      simp only [hlatest] at h
      by_cases hknown : latest.1.id = flashblock.flashblock.payloadId ∧
          flashblock.flashblock.index ≤ latest.2
      · exact ⟨latest.1, latest.2, rfl, hknown⟩
      · rw [if_neg hknown] at h
        cases h

theorem passed_of_succeeds {self : FlashblocksStateExecutor Tx} (h : Follows timestamp self.inner)
    {call : Call Tx Db} (htimestamp : SameTimestamps timestamp [call])
    (hopens : OpensFirst (self, []) call) {flashblock : Flashblock}
    (hdelivered : delivered call = some flashblock)
    (hsucceeds : Succeeds X debugAssertions self call) :
    Passed timestamp flashblock (perform X debugAssertions self call).1.inner := by
  have heffect := @perform_effect _ _ _ X debugAssertions self call
  generalize (perform X debugAssertions self call).1.inner = after at heffect ⊢
  cases heffect with
  | quiet _ hflashblocks hlatest hknown =>
      obtain ⟨payload, index, hpayload, hid, hindex⟩ :=
        alreadyProcessed_isSome (hknown hsucceeds flashblock hdelivered)
      obtain ⟨hcurrent, hlast⟩ := h.latest payload index hpayload
      have hbase : self.inner.flashblocks.base.timestamp =
          timestamp self.inner.flashblocks.payloadId := by
        rcases h.base with ⟨_, hnone⟩ | hbase
        · rw [hnone] at hpayload
          cases hpayload
        · exact hbase
      refine ⟨h.quiet hflashblocks hlatest, ?_, ?_, ?_⟩
      · rw [hflashblocks]
        exact hbase
      · intro _
        have hle := UInt64.le_iff_toNat_le.mp hindex
        rw [hflashblocks]
        omega
      · intro hother
        rw [hflashblocks, ← hcurrent, hid] at hother
        exact (hother rfl).elim
  | pushed other isNew next payload hother hpush hid =>
      cases hdelivered.symm.trans hother
      obtain ⟨hfollows, hbase⟩ := h.push hpush hid
        (htimestamp call List.mem_cons_self flashblock hdelivered)
        (fun hdefault => hopens hdefault flashblock hdelivered)
      obtain ⟨hsame, hlast⟩ := hfollows.latest payload _ rfl
      refine ⟨hfollows, hbase, ?_, ?_⟩
      · intro _
        omega
      · intro hdifferent
        exact (hdifferent (hid.symm.trans hsame)).elim

/-- The replay is known, or refused as out of order or not later. -/
theorem replay_effect {self : FlashblocksStateExecutor Tx} {flashblock : Flashblock}
    (h : Passed timestamp flashblock self.inner)
    (htimestamp : flashblock.flashblock.index = 0 → ∀ base ∈ flashblock.base,
      base.timestamp = timestamp flashblock.payloadId)
    (provider : Provider Db) (chainSpec : OpChainSpec) (fuel : Nat) :
    (perform X debugAssertions self
        (.processFlashblock provider chainSpec fuel flashblock)).1.inner = self.inner ∧
      ∃ result, (perform X debugAssertions self
        (.processFlashblock provider chainSpec fuel flashblock)).2 = [⟨some result, []⟩] := by
  cases hknown : alreadyProcessed self.inner flashblock with
  | some payload =>
      simp only [perform, processFlashblock, hknown]
      exact ⟨trivial, _, rfl⟩
  | none =>
      cases hisNew : self.inner.flashblocks.isNewPayload flashblock with
      | error e =>
          simp only [perform, processFlashblock, hknown, hisNew]
          exact ⟨trivial, _, rfl⟩
      | ok isNew =>
          cases isNew with
          | true =>
              obtain ⟨hother, hindex, base, hbase, hlater⟩ := isNewPayload_true hisNew
              rw [htimestamp hindex base hbase] at hlater
              exact (UInt64.lt_irrefl _ (UInt64.lt_trans hlater (h.earlier hother))).elim
          | false =>
              obtain ⟨hid, hindex⟩ := isNewPayload_false hisNew
              have hlt := h.current hid
              omega

/-! Whole runs. -/

def clock (payloadId : PayloadId) : UInt64 := if payloadId = 1 then 12 else 14

end WorldChain.Executor.Replay
