import WorldChain.Executor.Coupling
import WorldChain.Step.Publish

/-! The gas of a block and its receipts agree in every payload that a node
builds or publishes, over whole runs. -/
namespace WorldChain.Step.GasUsed
open Library.Fallible Library.Runs
open Wire.Primitives Deps.Revm Deps.Reth Deps.Calls Reverts
open Builder.Build Builder.Assemble Builder.Outcome Executor.Process Executor.Announced
open Executor.Coupling Publish

variable {Tx Db Core : Type}

def gasOf (receipts : List OpReceipt) : UInt64 :=
  (receipts.getLast?.map fun receipt => receipt.inner.cumulativeGasUsed).getD 0

/-- A payload of one block, whose gas is that of its receipts. -/
def GasUsedMatches (payload : OpBuiltPayload Tx) : Prop :=
  ∃ receipts, payload.executedBlock.map (fun executed => executed.executionOutput.receipts) =
    some [receipts] ∧ payload.block.header.gasUsed = gasOf receipts

theorem receipts_of_matches {payload : OpBuiltPayload Tx} (h : GasUsedMatches payload) :
    payload.block.header.gasUsed = gasOf payload.receipts := by
  obtain ⟨receipts, hreceipts, hgas⟩ := h
  obtain ⟨executed, hexecuted, hone⟩ := Option.map_eq_some_iff.mp hreceipts
  rw [hgas, OpBuiltPayload.receipts, hexecuted, Option.map_some, hone]
  simp

theorem matches_sealPayload {id : PayloadId} {header : Header} {transactions : List (Recovered Tx)}
    {blockAccessList : Option BlockAccessList} {bundle : BundleState} {receipts : List OpReceipt}
    {fees : U256} {firstBlock : UInt64} (hgas : header.gasUsed = gasOf receipts) :
    GasUsedMatches (sealPayload id header transactions blockAccessList bundle receipts fees
      firstBlock) := ⟨receipts, rfl, hgas⟩

variable {X : Crates Tx Db Core}

theorem buildReceipt_gas (tx : Tx) (result : ExecutionResult) (gas : UInt64)
    (nonce : Option UInt64) (chainSpec : OpChainSpec) (timestamp : UInt64) :
    (buildReceipt X tx result gas nonce chainSpec timestamp).inner.cumulativeGasUsed = gas := by
  unfold buildReceipt
  cases X.txType tx <;> rfl

theorem gasOf_concat (receipts : List OpReceipt) (receipt : OpReceipt) :
    gasOf (receipts ++ [receipt]) = receipt.inner.cumulativeGasUsed := by
  simp [gasOf]

/-! Built by the executor. -/

theorem matches_of_build {db stateProvider : Db} {ctx : OpPayloadBuilderCtx Tx}
    {committedPayload : Option (OpBuiltPayload Tx)} {bal : Option BlockAccessList}
    {evmEnv : EvmEnv} {extraData : Bytes} {outcome : BuildOutcomeKind (OpBuiltPayload Tx)}
    {payload : OpBuiltPayload Tx}
    (hcommitted : ∀ committed ∈ committedPayload, GasUsedMatches committed)
    (hbuild : build X db stateProvider ctx committedPayload bal evmEnv extraData = .ok outcome)
    (hpayload : outcome.payload = some payload) : GasUsedMatches payload := by
  obtain ⟨executed, built, hexecuted, hassemble, rfl⟩ := build_eq_ok.mp hbuild
  obtain ⟨setup, outcomes, hsetup, hran⟩ := execute_eq_ok.mp hexecuted
  obtain ⟨_, _, _, hload, _⟩ := setUp_eq_ok.mp hsetup
  have hstart : setup.committed.merged.cumulativeGasUsed =
      gasOf setup.committed.merged.receipts := by
    cases committedPayload with
    | none =>
        rw [loadCommitted_none hload]
        rfl
    | some committed =>
        obtain ⟨_, hreceipts, _, hgas, _⟩ := loadCommitted_some hload
        simp only [Committed.merged, hreceipts, hgas, Option.getD_some]
        exact receipts_of_matches (hcommitted committed rfl)
  have hstep (merged : Merged) (result : ParallelResult Tx) (merged' : Merged)
      (_ : merged.cumulativeGasUsed = gasOf merged.receipts)
      (hmerge : mergeResult X ctx evmEnv.blockEnv.basefee setup.state merged result = .ok merged') :
      merged'.cumulativeGasUsed = gasOf merged'.receipts := by
    obtain ⟨charged, _, rfl⟩ := mergeResult_eq_ok.mp hmerge
    rw [gasOf_concat, buildReceipt_gas]
  have hmerged := foldlM_invariant (fun merged => merged.cumulativeGasUsed = gasOf merged.receipts)
    hstep hstart hran.merged
  have hbuilt : payload = built := by
    split at hpayload <;> exact (Option.some.inj hpayload).symm
  obtain ⟨_, _, _, _, rfl⟩ := assemble_eq_ok hassemble
  rw [hbuilt]
  exact matches_sealPayload hmerged

theorem matches_of_fresh {provider : Provider Db} {chainSpec : OpChainSpec} {fuel : Nat}
    {self : FlashblocksStateExecutor Tx} {flashblock : Flashblock} {payload : OpBuiltPayload Tx}
    (hlatest : ∀ latest, self.inner.latestPayload = some latest → GasUsedMatches latest.1)
    (h : FreshlyBuilt X provider chainSpec fuel self flashblock payload) :
    GasUsedMatches payload := by
  obtain ⟨_, isNew, _, _, _, _, _, hcontents⟩ := h
  obtain ⟨outcome, hbuild, hpayload⟩ := bind_eq_ok.mp hcontents
  apply matches_of_build ?_ hbuild (Except.ok.inj hpayload)
  intro committed hcommitted
  obtain ⟨latest, hsome, rfl⟩ := Option.map_eq_some_iff.mp hcommitted
  exact hlatest latest (opened_latestPayload hsome)

def PublishesOwn (_ : FlashblocksStateExecutor Tx × List (Event Tx)) : Call Tx Db → Prop
  | .publishBuiltPayload _ builtPayload _ => GasUsedMatches builtPayload
  | .registerPayloadEvents | .processFlashblock _ _ _ _ => True

theorem latest_matches {debugAssertions : Bool}
    {pendingBlock : Option (BuiltPayloadExecutedBlock Tx)} {calls : List (Call Tx Db)}
    {executor : FlashblocksStateExecutor Tx}
    (hcalls : Meets (Executor.Coupling.step X debugAssertions) PublishesOwn (.new pendingBlock)
      calls)
    (hexecutor :
      (exec (Executor.Coupling.step X debugAssertions) (.new pendingBlock) calls).1 = executor) :
    ∀ latest, executor.inner.latestPayload = some latest → GasUsedMatches latest.1 := by
  subst hexecutor
  apply exec_invariant (fun reached => ∀ latest,
    reached.1.inner.latestPayload = some latest → GasUsedMatches latest.1) ?_ ?_ hcalls
  · intro latest hlatest
    cases hlatest
  · intro reached call hreached hown latest hlatest
    rcases step_latest hlatest with hkept | ⟨payload, id_eq, rfl⟩ | ⟨_, _, _, _, hfresh⟩
    · exact hreached latest hkept
    · exact hown
    · exact matches_of_fresh hreached hfresh

/-! Built by the publisher. -/

def TotalsMatch (totals : Totals) : Prop := totals.cumulativeGasUsed = gasOf totals.receipts

theorem totalsMatch_extractPreviousState {debugAssertions : Bool} {payload : Payload Tx}
    {totals : Totals}
    (hprevious : ∀ barrier ∈ payload.latestBarrier, ∀ built ∈ barrier.maybeBuiltPayload,
      GasUsedMatches built)
    (h : extractPreviousState debugAssertions payload = .ok totals) : TotalsMatch totals := by
  unfold extractPreviousState at h
  split at h
  · cases h
    rfl
  rename_i barrier hbarrier
  split at h
  · cases h
    rfl
  rename_i built hbuilt
  obtain ⟨receipts, hreceipts, hgas⟩ := hprevious barrier hbarrier built hbuilt
  obtain ⟨executed, hexecuted, hrest⟩ := bind_eq_ok.mp h
  cases hblock : built.executedBlock with
  | none =>
      rw [hblock] at hexecuted
      cases hexecuted
  | some block =>
      rw [hblock] at hexecuted hreceipts
      cases hexecuted
      have hone := Option.some.inj hreceipts
      simp only [hone, List.length_singleton, ne_eq, not_true_eq_false, and_false,
        ↓reduceIte] at hrest
      cases hrest
      exact hgas

theorem totalsMatch_addTransaction {payload : Payload Tx} {ctx : StepContext Tx Db}
    {checkpoint : Checkpoint Tx} {results : List ExecutionResult} {totals totals' : Totals}
    {indexed : Recovered Tx × Nat}
    (h : addTransaction X payload ctx checkpoint results totals indexed = .ok totals') :
    TotalsMatch totals' := by
  obtain ⟨result, _, hrest⟩ := bind_eq_ok.mp h
  obtain ⟨fee, _, hrest⟩ := bind_eq_ok.mp hrest
  obtain ⟨receipt, hreceipt, heq⟩ := bind_eq_ok.mp hrest
  obtain ⟨nonce, _, hbuilt⟩ := bind_eq_ok.mp hreceipt
  cases heq
  cases hbuilt
  unfold TotalsMatch
  rw [gasOf_concat, buildReceipt_gas]

theorem totalsMatch_addCheckpoint {payload : Payload Tx} {ctx : StepContext Tx Db}
    {checkpoint : Checkpoint Tx} {totals totals' : Totals} (hmatch : TotalsMatch totals)
    (h : addCheckpoint X payload ctx totals checkpoint = .ok totals') : TotalsMatch totals' := by
  unfold addCheckpoint at h
  split at h
  · cases h
    exact hmatch
  · split at h
    · cases h
      exact hmatch
    · rename_i results _
      have hfold : checkpoint.transactions.zipIdx.foldlM
          (addTransaction X payload ctx checkpoint results) _ = .ok totals' := h
      apply foldlM_invariant TotalsMatch (fun _ _ _ _ => totalsMatch_addTransaction) ?_ hfold
      exact hmatch

theorem buildOpBuiltPayload_eq_ok {debugAssertions : Bool} {self : PublishFlashblock Tx}
    {payload : Payload Tx} {ctx : StepContext Tx Db} {builtPayload : OpBuiltPayload Tx}
    (hprevious : ∀ barrier ∈ payload.latestBarrier, ∀ built ∈ barrier.maybeBuiltPayload,
      GasUsedMatches built)
    (h : buildOpBuiltPayload X debugAssertions self payload ctx = .ok builtPayload) :
    ∃ totals, TotalsMatch totals ∧ assembleBlock X payload ctx totals = .ok builtPayload := by
  obtain ⟨previous, hextract, hrest⟩ := bind_eq_ok.mp h
  obtain ⟨totals, hfold, hassemble⟩ := bind_eq_ok.mp hrest
  have hstart := totalsMatch_extractPreviousState hprevious hextract
  exact ⟨totals, foldlM_invariant TotalsMatch (fun _ _ _ => totalsMatch_addCheckpoint) hstart hfold,
    hassemble⟩

end WorldChain.Step.GasUsed
