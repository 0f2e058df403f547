import WorldChain.Deps.Concrete
import WorldChain.Executor.Process

/-! Whether a processed flashblock is the block it announces. The hashes are
compared by a debug assertion only. -/
namespace WorldChain.Executor.Announced
open Wire.Primitives Deps.Reth Deps.Calls Deps.Concrete
open Process

variable {Tx Db Core : Type}

def FreshlyBuilt (X : Crates Tx Db Core) (provider : Provider Db) (chainSpec : OpChainSpec)
    (fuel : Nat) (self : FlashblocksStateExecutor Tx) (flashblock : Flashblock)
    (payload : OpBuiltPayload Tx) : Prop :=
  alreadyProcessed self.inner flashblock = none ∧
    ∃ isNew, self.inner.flashblocks.isNewPayload flashblock = .ok isNew ∧
      Builds X provider chainSpec fuel (opened self isNew) isNew flashblock payload

/-- No payload, block or flashblock is put in place that was not there before.
The pending block of a flashblock processed earlier is sent again. -/
structure InstallsNothing (executor : FlashblocksStateExecutor Tx) (flashblock : Flashblock)
    (done : Returned Tx) : Prop where
  flashblocks : done.executor.inner.flashblocks = executor.inner.flashblocks
  latestPayload : ∀ latest, done.executor.inner.latestPayload = some latest →
    executor.inner.latestPayload = some latest
  pendingBlock : alreadyProcessed executor.inner flashblock = none →
    done.executor.pendingBlock = executor.pendingBlock
  events : ∀ payload, .builtPayload payload ∉ done.events

/-- A payload is installed only if it is the announced block; otherwise the call
fails and installs nothing. -/
structure InstallsOnlyAnnounced (X : Crates Tx Db Core) (provider : Provider Db)
    (chainSpec : OpChainSpec) (fuel : Nat) (executor : FlashblocksStateExecutor Tx)
    (flashblock : Flashblock) (done : Returned Tx) : Prop where
  built : ∀ payload, FreshlyBuilt X provider chainSpec fuel executor flashblock payload →
    X.blockHash payload.block = flashblock.diff.blockHash ∨
      (∃ e, done.result = .error e) ∧ InstallsNothing executor flashblock done
  unbuilt : (∀ payload, ¬FreshlyBuilt X provider chainSpec fuel executor flashblock payload) →
    InstallsNothing executor flashblock done

variable {X : Crates Tx Db Core}

theorem opened_latestPayload {self : FlashblocksStateExecutor Tx} {isNew : Bool}
    {latest : OpBuiltPayload Tx × UInt64}
    (h : (opened self isNew).inner.latestPayload = some latest) :
    self.inner.latestPayload = some latest := by
  cases isNew with
  | true => cases h
  | false => exact h

@[simp] theorem opened_pendingBlock (self : FlashblocksStateExecutor Tx) (isNew : Bool) :
    (opened self isNew).pendingBlock = self.pendingBlock := by
  cases isNew <;> rfl

theorem installsNothing_of_failed {self : FlashblocksStateExecutor Tx} {flashblock : Flashblock}
    {isNew : Bool} {e : Failure} {events : List (Event Tx)}
    (hevents : ∀ event ∈ events,
      event = .build flashblock (opened self isNew).inner.latestPayload) :
    InstallsNothing self flashblock ⟨.error e, opened self isNew, events⟩ where
  flashblocks := opened_flashblocks self isNew
  latestPayload _ := opened_latestPayload
  pendingBlock _ := opened_pendingBlock self isNew
  events := by
    intro payload hmem
    cases hevents _ hmem

theorem unbuilt_installsNothing {debugAssertions : Bool} {provider : Provider Db}
    {chainSpec : OpChainSpec} {fuel : Nat} {self : FlashblocksStateExecutor Tx}
    {flashblock : Flashblock} {done : Returned Tx}
    (h : Processed X debugAssertions provider chainSpec fuel self flashblock done)
    (hunbuilt : ∀ payload, ¬FreshlyBuilt X provider chainSpec fuel self flashblock payload) :
    InstallsNothing self flashblock done := by
  cases h with
  | known payload hknown =>
      refine ⟨rfl, fun _ hlatest => hlatest, ?_, by simp⟩
      intro hunknown
      rw [hknown] at hunknown
      cases hunknown
  | refused e hunknown hrefused => exact ⟨rfl, fun _ hlatest => hlatest, fun _ => rfl, by simp⟩
  | failed isNew e events hunknown hisNew hfailed hevents =>
      exact installsNothing_of_failed hevents
  | installed isNew payload flashblocks hunknown hisNew hbuilds =>
      exact (hunbuilt payload ⟨hunknown, isNew, hisNew, hbuilds⟩).elim

/-- A call that builds a payload installs it, unless the assertion panics. -/
theorem processed_of_fresh {debugAssertions : Bool} {provider : Provider Db}
    {chainSpec : OpChainSpec} {fuel : Nat} {self : FlashblocksStateExecutor Tx}
    {flashblock : Flashblock} {done : Returned Tx} {payload : OpBuiltPayload Tx}
    (h : Processed X debugAssertions provider chainSpec fuel self flashblock done)
    (hfresh : FreshlyBuilt X provider chainSpec fuel self flashblock payload) :
    (debugAssertions ∧ (∃ e, done.result = .error e) ∧ InstallsNothing self flashblock done) ∨
      (debugAssertions → X.blockHash payload.block = flashblock.diff.blockHash) ∧
        done.result = .ok () := by
  obtain ⟨hunknown, isNew, hisNew, hbuilds⟩ := hfresh
  cases h with
  | known _ hknown =>
      rw [hknown] at hunknown
      cases hunknown
  | refused e _ hrefused =>
      rw [hrefused] at hisNew
      cases hisNew
  | failed isNew' e events _ hisNew' hfailed hevents =>
      rw [hisNew] at hisNew'
      cases hisNew'
      exact .inl ⟨(hfailed payload hbuilds).1, ⟨e, rfl⟩, installsNothing_of_failed hevents⟩
  | installed isNew' payload' flashblocks _ hisNew' hbuilds' hassertion =>
      rw [hisNew] at hisNew'
      cases hisNew'
      rw [builds_unique hbuilds hbuilds']
      exact .inr ⟨hassertion, rfl⟩

/-- With debug assertions a call that does not panic on them keeps the promise. -/
theorem only_announced_debug {provider : Provider Db} {chainSpec : OpChainSpec} {fuel : Nat}
    {self : FlashblocksStateExecutor Tx} {flashblock : Flashblock} {done : Returned Tx}
    (h : processFlashblock X true provider chainSpec fuel self flashblock = some done) :
    InstallsOnlyAnnounced X provider chainSpec fuel self flashblock done := by
  refine ⟨?_, unbuilt_installsNothing (processed h)⟩
  intro payload hfresh
  cases processed_of_fresh (processed h) hfresh with
  | inl hpanicked => exact .inr hpanicked.2
  | inr hinstalled => exact .inl (hinstalled.1 rfl)

/-- Exactly when a release build keeps the promise: when the contents of the
flashblock execute to the block it announces, or do not execute. -/
theorem only_announced_iff {provider : Provider Db} {chainSpec : OpChainSpec} {fuel : Nat}
    {self : FlashblocksStateExecutor Tx} {flashblock : Flashblock} {done : Returned Tx}
    (h : processFlashblock X false provider chainSpec fuel self flashblock = some done) :
    InstallsOnlyAnnounced X provider chainSpec fuel self flashblock done ↔
      ∀ payload, FreshlyBuilt X provider chainSpec fuel self flashblock payload →
        X.blockHash payload.block = flashblock.diff.blockHash := by
  constructor
  · intro hannounced payload hfresh
    rcases hannounced.built payload hfresh with hhash | ⟨⟨e, herror⟩, _⟩
    · exact hhash
    cases processed_of_fresh (processed h) hfresh with
    | inl hpanicked => cases hpanicked.1
    | inr hinstalled => cases herror.symm.trans hinstalled.2
  · intro hannounced
    exact ⟨fun payload hfresh => .inl (hannounced payload hfresh),
      unbuilt_installsNothing (processed h)⟩

/-! A flashblock that opens a payload, over a provider that knows its parent block. -/

def sampleProvider : Provider SampleDb where
  sealedHeaderByHash _ blockHash := .ok (if blockHash = 7 then some ⟨sampleHeader, 7⟩ else none)
  stateByBlockHash blockHash :=
    if blockHash = 7 then .ok {} else .error "no state found for block hash"
  chainSpec := sampleChainSpec

def opens (payloadId : PayloadId) (timestamp : UInt64) (transactions : List Bytes) : Flashblock where
  flashblock := {
    payloadId := payloadId
    index := 0
    diff := { transactions := transactions }
    metadata := {}
    base := some { parentHash := 7, timestamp := timestamp } }

theorem only_announced_iff_empty_flashblock :
    ∃ done, processFlashblock sample false sampleProvider sampleChainSpec 1 (.new none)
        (opens 1 12 []) = some done ∧
      (InstallsOnlyAnnounced sample sampleProvider sampleChainSpec 1 (.new none) (opens 1 12 [])
          done ↔
        ∀ payload,
          FreshlyBuilt sample sampleProvider sampleChainSpec 1 (.new none) (opens 1 12 []) payload →
            sample.blockHash payload.block = (opens 1 12 []).diff.blockHash) := by
  have hreturns : (processFlashblock sample false sampleProvider sampleChainSpec 1 (.new none)
      (opens 1 12 [])).isSome := rfl
  obtain ⟨done, hdone⟩ := Option.isSome_iff_exists.mp hreturns
  exact ⟨done, hdone, only_announced_iff hdone⟩

/-- A block of hash 8 is installed for one announced as 0. -/
theorem unannounced_installed :
    ¬∀ self flashblock done,
      processFlashblock sample false sampleProvider sampleChainSpec 1 self flashblock = some done →
        InstallsOnlyAnnounced sample sampleProvider sampleChainSpec 1 self flashblock done := by
  intro hall
  have hhash : (processFlashblock sample false sampleProvider sampleChainSpec 1 (.new none)
      (opens 1 12 [])).map (fun done => done.executor.inner.latestPayload.map fun latest =>
        sample.blockHash latest.1.block) = some (some 8) := rfl
  obtain ⟨done, hdone, hlatest⟩ := Option.map_eq_some_iff.mp hhash
  have hannounced := hall _ _ done hdone
  cases processed hdone with
  | known _ hknown => cases hknown
  | refused _ _ hrefused => cases hrefused
  | failed isNew => cases isNew <;> cases hlatest
  | installed isNew payload _ hunknown hisNew hbuilds =>
      rcases hannounced.built payload ⟨hunknown, isNew, hisNew, hbuilds⟩ with heq | ⟨⟨_, herror⟩, _⟩
      · rw [Option.map_some, heq] at hlatest
        cases hlatest
      · cases herror

end WorldChain.Executor.Announced
