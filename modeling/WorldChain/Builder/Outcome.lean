import WorldChain.Builder.Sequential

/-! What a successful `build` says: which transactions ran on what, and how
their results were merged. -/
namespace WorldChain.Builder.Outcome
open Library.Fallible Library.Overlay Library.Upsert
open Wire.Primitives Deps.Revm Deps.Reth Deps.Calls Step.Reverts Build Assemble Builder.Sequential

variable {Tx Db Core : Type} {X : Crates Tx Db Core}

theorem setUp_eq_ok {db : Db} {ctx : OpPayloadBuilderCtx Tx}
    {committedPayload : Option (OpBuiltPayload Tx)} {bal : Option BlockAccessList}
    {setup : Setup Tx Core} :
    setUp X db ctx committedPayload bal = .ok setup ↔
      ∃ balState index txs, loadCommitted X committedPayload = .ok setup.committed ∧
        initialBalState X setup.committed bal = .ok balState ∧
        prepareState X ctx setup.committed
          { core := X.buildState db setup.committed.bundle, balState := balState } =
            .ok (setup.state, index) ∧
        (ctx.attributes.transactions.mapM fun tx =>
          recover X tx.value fun shown => "tx recovery failed for " ++ shown) = .ok txs ∧
        setup.transactions = txs.zipIdx index := by
  unfold setUp
  simp only [bind_eq_ok]
  constructor
  · rintro ⟨committed, hcommitted, balState, hbalState, prepared, hprepared, txs, htxs, heq⟩
    cases heq
    exact ⟨balState, prepared.2, txs, hcommitted, hbalState, hprepared, htxs, rfl⟩
  · rintro ⟨balState, index, txs, hcommitted, hbalState, hprepared, htxs, heq⟩
    refine ⟨_, hcommitted, balState, hbalState, _, hprepared, txs, htxs, ?_⟩
    rw [← heq]
    rfl

theorem initialBalState_none (committed : Committed Tx) :
    initialBalState X committed none = (initialBalBuilder X committed).map fun _ => {} := by
  unfold initialBalState
  cases initialBalBuilder X committed <;> rfl

theorem initialBalState_some (committed : Committed Tx) (list : BlockAccessList) :
    initialBalState X committed (some list) =
      (initialBalBuilder X committed).bind fun balBuilder =>
        (loadBal X list).map fun bal =>
          { bal := some bal
            balBuilder := some balBuilder
            balIndex := committed.transactionsOffset } := by
  unfold initialBalState
  cases initialBalBuilder X committed with
  | error e => rfl
  | ok balBuilder =>
      simp only [bind, Except.bind]
      cases loadBal X list <;> rfl

/-- The pre-execution changes: none once a payload is committed. -/
def preExecutionChanges (X : Crates Tx Db Core) (ctx : OpPayloadBuilderCtx Tx)
    (committed : Committed Tx) (read : Reader) : Except Failure (List EvmState) := do
  let builder ← blockBuilder X ctx committed
  if committed.transactionsOffset = 0 then
    orError (X.preExecution builder.executionCtx builder.evmEnv read)
  else
    return []

def firstIndex (committed : Committed Tx) : BalIndex :=
  if committed.transactionsOffset = 0 then 1 else committed.transactionsOffset

theorem prepareState_eq (ctx : OpPayloadBuilderCtx Tx) (committed : Committed Tx)
    (state : State Core) :
    prepareState X ctx committed state =
      (preExecutionChanges X ctx committed (X.read state)).map fun changes =>
        (changes.foldl X.commit state, firstIndex committed) := by
  unfold prepareState preExecutionChanges FlashblocksBlockBuilder.applyPreExecutionChanges firstIndex
  cases blockBuilder X ctx committed with
  | error e => rfl
  | ok builder =>
      simp only [bind, Except.bind]
      by_cases hoffset : committed.transactionsOffset = 0
      · simp only [hoffset, ↓reduceIte]
        cases X.preExecution builder.executionCtx builder.evmEnv (X.read state) <;> rfl
      · simp only [hoffset, ↓reduceIte]
        rfl

theorem loadCommitted_some {payload : OpBuiltPayload Tx} {committed : Committed Tx}
    (h : loadCommitted X (some payload) = .ok committed) :
    committed.bundle.state = payload.postState ∧ committed.receipts = payload.receipts ∧
      committed.previousBal = payload.block.body.blockAccessList ∧
      committed.gasUsed = some payload.block.header.gasUsed ∧
      committed.transactionsOffset = payload.block.body.transactions.length + 1 := by
  cases hexecuted : payload.executedBlock with
  | none =>
      simp only [loadCommitted, hexecuted] at h
      cases h
  | some executed =>
      simp only [loadCommitted, hexecuted] at h
      obtain ⟨txs, _, heq⟩ := bind_eq_ok.mp h
      cases heq
      simp [OpBuiltPayload.postState, OpBuiltPayload.receipts, hexecuted]

theorem loadCommitted_none {committed : Committed Tx}
    (h : loadCommitted X (none : Option (OpBuiltPayload Tx)) = .ok committed) : committed = {} :=
  (Except.ok.inj h).symm

theorem setUp_state {db : Db} {ctx : OpPayloadBuilderCtx Tx}
    {committedPayload : Option (OpBuiltPayload Tx)} {bal : Option BlockAccessList}
    {setup : Setup Tx Core} (h : setUp X db ctx committedPayload bal = .ok setup) :
    ∃ balState changes, initialBalState X setup.committed bal = .ok balState ∧
      preExecutionChanges X ctx setup.committed
        (X.readState (X.buildState db setup.committed.bundle) balState.bal balState.balIndex) =
          .ok changes ∧
      setup.state = changes.foldl X.commit
        { core := X.buildState db setup.committed.bundle, balState := balState } := by
  obtain ⟨balState, _, _, _, hbalState, hprepared, _, _⟩ := setUp_eq_ok.mp h
  rw [prepareState_eq, map_eq_ok] at hprepared
  obtain ⟨changes, hchanges, heq⟩ := hprepared
  exact ⟨balState, changes, hbalState, hchanges, (congrArg Prod.fst heq).symm⟩

theorem preExecutionChanges_of_committed {ctx : OpPayloadBuilderCtx Tx} {committed : Committed Tx}
    {read : Reader} {changes : List EvmState} (hoffset : committed.transactionsOffset ≠ 0)
    (h : preExecutionChanges X ctx committed read = .ok changes) : changes = [] := by
  obtain ⟨builder, _, hchanges⟩ := bind_eq_ok.mp h
  rw [if_neg hoffset] at hchanges
  exact (Except.ok.inj hchanges).symm

theorem outcomes_tx {evmEnv : EvmEnv} {readAt : BalIndex → Reader}
    {txs : List (Recovered Tx × BalIndex)} {outcomes : List (TxOutcome Tx)}
    (h : txs.mapM (transactAt X evmEnv readAt) = .ok outcomes) :
    outcomes.map (fun outcome => (outcome.tx, outcome.index)) = txs := by
  have hforall := mapM_eq_ok.mp h
  induction hforall with
  | nil => rfl
  | cons hfirst hrest ih =>
      have hmatch := transactAt_eq_ok.mp hfirst
      rw [List.map_cons, ih (mapM_eq_ok.mpr hrest), hmatch.2.1, hmatch.2.2]

theorem zipIdx_pairwise {α : Type} (l : List α) (n : Nat) :
    (l.zipIdx n).Pairwise fun a b => a.2 ≤ b.2 := by
  have hrange : ((l.zipIdx n).map Prod.snd).Pairwise (· < ·) := by
    rw [List.zipIdx_map_snd]
    exact List.pairwise_lt_range'
  exact (List.pairwise_map.mp hrange).imp Nat.le_of_lt

/-- The results come in index order already, so sorting them changes nothing. -/
theorem parallelResults_sorted {db : Db} {bundle : BundleState} {balState : BalState}
    {evmEnv : EvmEnv} {readAt : BalIndex → Reader} {txs : List (Recovered Tx)} {index : BalIndex}
    {outcomes : List (TxOutcome Tx)}
    (h : (txs.zipIdx index).mapM (transactAt X evmEnv readAt) = .ok outcomes) :
    (outcomes.map (TxOutcome.parallelResult X db bundle balState)).insertionSort
        (fun a b => a.index ≤ b.index) =
      outcomes.map (TxOutcome.parallelResult X db bundle balState) := by
  apply List.Pairwise.insertionSort_eq
  have hsorted := zipIdx_pairwise txs index
  rw [← outcomes_tx h, List.pairwise_map] at hsorted
  rw [List.pairwise_map]
  exact hsorted

/-- The parallel runs of a flashblock merged over the committed payload. -/
structure Ran (X : Crates Tx Db Core) (db : Db) (ctx : OpPayloadBuilderCtx Tx) (evmEnv : EvmEnv)
    (setup : Setup Tx Core) (outcomes : List (TxOutcome Tx)) (executed : Execution Tx) : Prop where
  ran : setup.transactions.mapM (transactAt X evmEnv
    (parallelReader X db setup.committed.bundle setup.state.balState.bal)) = .ok outcomes
  merged : (outcomes.map
      (TxOutcome.parallelResult X db setup.committed.bundle setup.state.balState)).foldlM
    (mergeResult X ctx evmEnv.blockEnv.basefee setup.state) setup.committed.merged =
      .ok executed.merged
  transactions :
    executed.transactions = setup.committed.transactions ++ setup.transactions.map Prod.fst

theorem execute_of_setUp {db : Db} {ctx : OpPayloadBuilderCtx Tx}
    {committedPayload : Option (OpBuiltPayload Tx)} {bal : Option BlockAccessList}
    (evmEnv : EvmEnv) {setup : Setup Tx Core}
    (hsetup : setUp X db ctx committedPayload bal = .ok setup) :
    execute X db ctx committedPayload bal evmEnv =
      (orError (setup.transactions.mapM (transactAt X evmEnv
        (parallelReader X db setup.committed.bundle setup.state.balState.bal)))).bind fun outcomes =>
        ((outcomes.map
          (TxOutcome.parallelResult X db setup.committed.bundle setup.state.balState)).foldlM
          (mergeResult X ctx evmEnv.blockEnv.basefee setup.state) setup.committed.merged).map
          fun merged => ⟨setup.committed.transactions ++ setup.transactions.map Prod.fst, merged⟩ := by
  obtain ⟨_, index, txs, _, _, _, _, htxs⟩ := setUp_eq_ok.mp hsetup
  unfold execute
  rw [hsetup]
  simp only [bind, Except.bind, parallelResults_eq]
  cases houtcomes : setup.transactions.mapM (transactAt X evmEnv
      (parallelReader X db setup.committed.bundle setup.state.balState.bal)) with
  | error e => rfl
  | ok outcomes =>
      have hsorted := houtcomes
      rw [htxs] at hsorted
      simp only [Except.map, orError, Except.mapError, parallelResults_sorted hsorted]
      rfl

theorem execute_eq_ok {db : Db} {ctx : OpPayloadBuilderCtx Tx}
    {committedPayload : Option (OpBuiltPayload Tx)} {bal : Option BlockAccessList}
    {evmEnv : EvmEnv} {executed : Execution Tx} :
    execute X db ctx committedPayload bal evmEnv = .ok executed ↔
      ∃ setup outcomes, setUp X db ctx committedPayload bal = .ok setup ∧
        Ran X db ctx evmEnv setup outcomes executed := by
  constructor
  · intro h
    obtain ⟨setup, hsetup, _⟩ := bind_eq_ok.mp h
    rw [execute_of_setUp evmEnv hsetup] at h
    obtain ⟨outcomes, houtcomes, hmerge⟩ := bind_eq_ok.mp h
    obtain ⟨merged, hmerged, heq⟩ := map_eq_ok.mp hmerge
    cases heq
    exact ⟨setup, outcomes, hsetup, orError_eq_ok.mp houtcomes, hmerged, rfl⟩
  · rintro ⟨setup, outcomes, hsetup, hran⟩
    rw [execute_of_setUp evmEnv hsetup, hran.ran]
    refine map_eq_ok.mpr ⟨executed.merged, hran.merged, ?_⟩
    rw [← hran.transactions]

theorem mergeResult_eq_ok {ctx : OpPayloadBuilderCtx Tx} {basefee : UInt64} {state : State Core}
    {merged merged' : Merged} {result : ParallelResult Tx} :
    mergeResult X ctx basefee state merged result = .ok merged' ↔
      ∃ charged, nonceOrFee X basefee state result = .ok charged ∧
        merged' = {
          bundle := X.extendBundle merged.bundle result.bundleState
          receipts := merged.receipts ++ [buildReceipt X result.tx.inner result.execResult
            (merged.cumulativeGasUsed + result.execResult.gasUsed) charged.1 ctx.chainSpec
            ctx.timestamp]
          cumulativeGasUsed := merged.cumulativeGasUsed + result.execResult.gasUsed
          fees := merged.fees + charged.2
          finalBal := ⟨mergeInto (extendAccountBal X) merged.finalBal.accounts
            (result.bal.getD {}).accounts⟩ } := by
  unfold mergeResult
  rw [bind_eq_ok]
  exact exists_congr fun charged => and_congr_right fun _ =>
    ⟨fun h => (Except.ok.inj h).symm, fun h => congrArg Except.ok h.symm⟩

theorem assemble_eq_ok {stateProvider : Db} {ctx : OpPayloadBuilderCtx Tx} {evmEnv : EvmEnv}
    {extraData : Bytes} {executed : Execution Tx} {payload : OpBuiltPayload Tx}
    (h : assemble X stateProvider ctx evmEnv extraData executed = .ok payload) :
    ∃ roots stateRoot,
      withdrawalsAndRequests X ctx.chainSpec ctx.timestamp (flattenBundle executed.merged.bundle)
        stateProvider = .ok roots ∧
      orError (X.stateRoot stateProvider (flattenBundle executed.merged.bundle)) = .ok stateRoot ∧
      payload = sealPayload ctx.payloadId
        (header X ctx evmEnv extraData executed roots.1 roots.2 stateRoot
          (X.intoAlloyBal executed.merged.finalBal))
        executed.transactions (some (X.intoAlloyBal executed.merged.finalBal))
        (flattenBundle executed.merged.bundle) executed.merged.receipts executed.merged.fees
        (ctx.parent.header.number + 1) := by
  obtain ⟨roots, hroots, hrest⟩ := bind_eq_ok.mp h
  obtain ⟨stateRoot, hstateRoot, heq⟩ := bind_eq_ok.mp hrest
  exact ⟨roots, stateRoot, hroots, hstateRoot, (Except.ok.inj heq).symm⟩

structure Assembled (X : Crates Tx Db Core) (executed : Execution Tx) (payload : OpBuiltPayload Tx) :
    Prop where
  postState : payload.postState = executed.merged.bundle.state
  receipts : payload.receipts = executed.merged.receipts
  gasUsed : payload.block.header.gasUsed = executed.merged.cumulativeGasUsed
  fees : payload.fees = executed.merged.fees
  transactions : payload.block.body.transactions = executed.transactions.map (·.inner)
  blockAccessList :
    payload.block.body.blockAccessList = some (X.intoAlloyBal executed.merged.finalBal)
  blockAccessListHash : payload.block.header.blockAccessListHash =
    some (X.computeBlockAccessListHash (X.intoAlloyBal executed.merged.finalBal))
  committed : payload.executedBlock.isSome

theorem assembled {stateProvider : Db} {ctx : OpPayloadBuilderCtx Tx} {evmEnv : EvmEnv}
    {extraData : Bytes} {executed : Execution Tx} {payload : OpBuiltPayload Tx}
    (h : assemble X stateProvider ctx evmEnv extraData executed = .ok payload) :
    Assembled X executed payload := by
  obtain ⟨roots, stateRoot, _, _, rfl⟩ := assemble_eq_ok h
  constructor <;> simp [OpBuiltPayload.postState, OpBuiltPayload.receipts, sealPayload, header]

theorem assemble_id {stateProvider : Db} {ctx : OpPayloadBuilderCtx Tx} {evmEnv : EvmEnv}
    {extraData : Bytes} {executed : Execution Tx} {payload : OpBuiltPayload Tx}
    (h : assemble X stateProvider ctx evmEnv extraData executed = .ok payload) :
    payload.id = ctx.payloadId := by
  obtain ⟨_, _, _, _, rfl⟩ := assemble_eq_ok h
  rfl

/-- A successful build is an execution and the payload assembled from it. -/
theorem build_eq_ok {db stateProvider : Db} {ctx : OpPayloadBuilderCtx Tx}
    {committedPayload : Option (OpBuiltPayload Tx)} {bal : Option BlockAccessList}
    {evmEnv : EvmEnv} {extraData : Bytes} {outcome : BuildOutcomeKind (OpBuiltPayload Tx)} :
    build X db stateProvider ctx committedPayload bal evmEnv extraData = .ok outcome ↔
      ∃ executed payload, execute X db ctx committedPayload bal evmEnv = .ok executed ∧
        assemble X stateProvider ctx evmEnv extraData executed = .ok payload ∧
        outcome = (if ctx.attributes.noTxPool then .freeze payload else .better payload) := by
  unfold build
  simp only [bind_eq_ok]
  constructor
  · rintro ⟨executed, hexecuted, payload, hpayload, heq⟩
    exact ⟨executed, payload, hexecuted, hpayload, (Except.ok.inj heq).symm⟩
  · rintro ⟨executed, payload, hexecuted, hpayload, heq⟩
    exact ⟨executed, hexecuted, payload, hpayload, congrArg Except.ok heq.symm⟩

end WorldChain.Builder.Outcome
