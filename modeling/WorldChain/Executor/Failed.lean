import WorldChain.Executor.Announced

/-! What a call of `process_flashblock` that fails leaves behind. -/
namespace WorldChain.Executor.Failed
open Library.Overlay Wire.Primitives Deps.Reth Deps.Calls Deps.Concrete
open Process Announced

variable {Tx Db Core : Type}

structure LeavesNoTrace (executor : FlashblocksStateExecutor Tx) (done : Returned Tx) : Prop where
  flashblocks : done.executor.inner.flashblocks = executor.inner.flashblocks
  latestPayload : done.executor.inner.latestPayload = executor.inner.latestPayload
  pendingBlock : done.executor.pendingBlock = executor.pendingBlock
  events : ∀ payload, .builtPayload payload ∉ done.events

variable {X : Crates Tx Db Core}

theorem opened_latestPayload_eq_iff (self : FlashblocksStateExecutor Tx) (isNew : Bool) :
    (opened self isNew).inner.latestPayload = self.inner.latestPayload ↔
      ¬(isNew = true ∧ self.inner.latestPayload.isSome) := by
  cases isNew with
  | false => simp [opened]
  | true => cases self.inner.latestPayload <;> simp [opened]

/-- Exactly when a call that fails leaves no trace: unless the flashblock opens a
payload, and there was a latest payload to be forgotten. -/
theorem no_trace_iff {debugAssertions : Bool} {provider : Provider Db} {chainSpec : OpChainSpec}
    {fuel : Nat} {self : FlashblocksStateExecutor Tx} {flashblock : Flashblock}
    {done : Returned Tx} {e : Failure}
    (hdone : processFlashblock X debugAssertions provider chainSpec fuel self flashblock = some done)
    (hfailed : done.result = .error e) :
    LeavesNoTrace self done ↔
      ¬(self.inner.flashblocks.isNewPayload flashblock = .ok true ∧
        self.inner.latestPayload.isSome) := by
  cases processed hdone with
  | known => cases hfailed
  | installed => cases hfailed
  | refused e' _ hrefused =>
      constructor
      · rintro _ ⟨hisNew, _⟩
        rw [hrefused] at hisNew
        cases hisNew
      · intro _
        exact ⟨rfl, rfl, rfl, by simp⟩
  | failed isNew e' events _ hisNew _ hevents =>
      have hlatest := opened_latestPayload_eq_iff self isNew
      rw [hisNew, Except.ok.injEq]
      constructor
      · intro h
        exact hlatest.mp h.latestPayload
      · intro h
        refine ⟨opened_flashblocks self isNew, hlatest.mpr h, opened_pendingBlock self isNew, ?_⟩
        intro payload hmem
        cases hevents _ hmem

/-! An executor that has published flashblock 0 of payload 1 receives flashblock 0
of payload 2, with a transaction that does not decode. -/

def afterPublishing : FlashblocksStateExecutor SampleTx :=
  (publishBuiltPayload (.new none) (opens 1 12 []).flashblock (samplePayload blank [])).executor

theorem undecodable_fails :
    ∃ done, processFlashblock sample false sampleProvider sampleChainSpec 1 afterPublishing
        (opens 2 14 [[1]]) = some done ∧
      done.result = .error (.error "unexpected length") ∧
        done.executor.inner.latestPayload = none := by
  refine ⟨⟨.error (.error "unexpected length"), opened afterPublishing true, []⟩, ?_, rfl, rfl⟩
  rfl

theorem no_trace_iff_undecodable :
    ∃ done, processFlashblock sample false sampleProvider sampleChainSpec 1 afterPublishing
        (opens 2 14 [[1]]) = some done ∧
      (LeavesNoTrace afterPublishing done ↔
        ¬(afterPublishing.inner.flashblocks.isNewPayload (opens 2 14 [[1]]) = .ok true ∧
          afterPublishing.inner.latestPayload.isSome)) := by
  obtain ⟨done, hdone, hfailed, _⟩ := undecodable_fails
  exact ⟨done, hdone, no_trace_iff hdone hfailed⟩

theorem latest_payload_lost :
    ¬∀ (self : FlashblocksStateExecutor SampleTx) flashblock done e,
      processFlashblock sample false sampleProvider sampleChainSpec 1 self flashblock = some done →
        done.result = .error e → LeavesNoTrace self done := by
  intro hall
  obtain ⟨done, hdone, hfailed, hlatest⟩ := undecodable_fails
  have hkept := (hall afterPublishing (opens 2 14 [[1]]) done _ hdone hfailed).latestPayload
  rw [hlatest] at hkept
  cases hkept

end WorldChain.Executor.Failed
