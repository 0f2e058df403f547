import WorldChain.Builder.Outcome

/-! Merging the bundles of the parallel runs. Each of them carries the whole
prestate besides its own writes, so extending by a later one puts back what an
earlier transaction has overwritten. -/
namespace WorldChain.Builder.Updates
open Library.Fallible Library.Overlay Library.Upsert
open Wire.Primitives Deps.Revm Deps.Reth Deps.Calls Deps.Concrete
open Build Assemble Builder.Sequential Outcome

variable {Tx Db Core : Type} {X : Crates Tx Db Core}

/-- A bundle is the prestate with what was committed and merged on top, and
extending it overwrites what the other bundle has. -/
structure BundleLaws (X : Crates Tx Db Core) : Prop where
  takeBundle : ∀ (db : Db) (bundle : BundleState) (changes : List EvmState),
    (X.takeBundle (X.mergeTransitions (changes.foldl X.commitState (X.buildState db bundle)))).state =
      overlays bundle.state (changes.map EvmState.writes)
  extendBundle : ∀ bundle other : BundleState,
    (X.extendBundle bundle other).state = overlay bundle.state other.state

theorem sample_pending (changes : List EvmState) (core : SampleCore) :
    changes.foldl sample.commitState core =
      { core with pending := core.pending ++ changes } := by
  induction changes generalizing core with
  | nil => simp
  | cons first rest ih =>
      rw [List.foldl_cons, ih]
      simp [sample]

theorem sample_bundleLaws : BundleLaws sample where
  takeBundle db bundle changes := by
    rw [sample_pending]
    simp [sample]
  extendBundle bundle other := rfl

def writesOf (outcomes : List (TxOutcome Tx)) : List (Changes StateKey.Value) :=
  outcomes.map fun outcome => outcome.changes.writes

def sequentialBundle (X : Crates Tx Db Core) (setup : Setup Tx Core)
    (outcomes : List (TxOutcome Tx)) : BundleState :=
  X.takeBundle (X.mergeTransitions
    ((outcomes.map TxOutcome.changes).foldl X.commit setup.state).core)

/-- The merge loop of `build` is a merge of snapshots. -/
theorem merged_state (hlaws : BundleLaws X) {db : Db} {ctx : OpPayloadBuilderCtx Tx}
    {evmEnv : EvmEnv} {setup : Setup Tx Core} {outcomes : List (TxOutcome Tx)}
    {executed : Execution Tx} (hran : Ran X db ctx evmEnv setup outcomes executed) :
    executed.merged.bundle.state =
      snapshots setup.committed.bundle.state (writesOf outcomes) := by
  have hstep : ∀ (merged : Merged) (result : ParallelResult Tx) (merged' : Merged),
      mergeResult X ctx evmEnv.blockEnv.basefee setup.state merged result = .ok merged' →
        merged'.bundle.state = overlay merged.bundle.state result.bundleState.state := by
    intro merged result merged' h
    obtain ⟨charged, _, rfl⟩ := mergeResult_eq_ok.mp h
    exact hlaws.extendBundle _ _
  have hview := foldlM_view (fun merged => merged.bundle.state)
    (fun state result => overlay state result.bundleState.state) hstep hran.merged
  rw [hview, List.foldl_map, snapshots, writesOf, List.foldl_map]
  have hbundle (outcome : TxOutcome Tx) :
      (outcome.parallelResult X db setup.committed.bundle setup.state.balState).bundleState.state =
        overlay setup.committed.bundle.state outcome.changes.writes :=
    hlaws.takeBundle db setup.committed.bundle [outcome.changes]
  simp only [hbundle]
  rfl

theorem sequentialBundle_state (hlaws : BundleLaws X) {db : Db} {ctx : OpPayloadBuilderCtx Tx}
    {committedPayload : Option (OpBuiltPayload Tx)} {bal : Option BlockAccessList}
    {setup : Setup Tx Core} (hsetup : setUp X db ctx committedPayload bal = .ok setup)
    (outcomes : List (TxOutcome Tx)) :
    ∃ balState changes, initialBalState X setup.committed bal = .ok balState ∧
      preExecutionChanges X ctx setup.committed
        (X.readState (X.buildState db setup.committed.bundle) balState.bal balState.balIndex) =
          .ok changes ∧
      (sequentialBundle X setup outcomes).state =
        overlays setup.committed.bundle.state
          (changes.map EvmState.writes ++ writesOf outcomes) := by
  obtain ⟨balState, changes, hbalState, hchanges, hstate⟩ := setUp_state hsetup
  refine ⟨balState, changes, hbalState, hchanges, ?_⟩
  have hcore : ((outcomes.map TxOutcome.changes).foldl X.commit setup.state).core =
      (changes ++ outcomes.map TxOutcome.changes).foldl X.commitState
        (X.buildState db setup.committed.bundle) := by
    rw [foldl_commit_core, hstate, foldl_commit_core, List.foldl_append]
  rw [sequentialBundle, hcore, hlaws.takeBundle, List.map_append, List.map_map]
  rfl

theorem setUp_listed (hlaws : ReadLaws X) {db : Db} {ctx : OpPayloadBuilderCtx Tx}
    {committedPayload : Option (OpBuiltPayload Tx)} {evmEnv : EvmEnv} {list : BlockAccessList}
    {bal : Bal} (htrue : Describes X db ctx committedPayload evmEnv list bal) :
    Agree (fun listed unlisted : Setup Tx Core =>
        listed.committed = unlisted.committed ∧ listed.state.core = unlisted.state.core ∧
          listed.transactions = unlisted.transactions ∧ listed.state.balState.bal = some bal ∧
          unlisted.state.balState.bal = none)
      (setUp X db ctx committedPayload (some list)) (setUp X db ctx committedPayload none) := by
  have hbalState (committed : Committed Tx) :
      Agree (fun listed unlisted : BalState =>
          listed.bal = some bal ∧ listed.balIndex = committed.transactionsOffset ∧
            unlisted.bal = none ∧ unlisted.balIndex = 0)
        (initialBalState X committed (some list)) (initialBalState X committed none) := by
    rw [initialBalState_some, initialBalState_none, htrue.loads]
    cases initialBalBuilder X committed with
    | error e => trivial
    | ok balBuilder => exact ⟨rfl, rfl, rfl, rfl⟩
  unfold setUp
  apply Agree.bind_left
  intro committed hcommitted
  refine Agree.bind (hbalState committed) ?_
  intro listed unlisted _ _ hstates
  obtain ⟨hbal, hindex, hnone, hzero⟩ := hstates
  have hchanges : preExecutionChanges X ctx committed
        (X.readState (X.buildState db committed.bundle) listed.bal listed.balIndex) =
      preExecutionChanges X ctx committed
        (X.readState (X.buildState db committed.bundle) unlisted.bal unlisted.balIndex) := by
    unfold preExecutionChanges
    cases hbuilder : blockBuilder X ctx committed with
    | error e => rfl
    | ok builder =>
        by_cases hoffset : committed.transactionsOffset = 0
        · have hread := htrue.preExecution committed builder hcommitted hoffset hbuilder
          have heq := hlaws.preExecution builder.executionCtx builder.evmEnv _ _ hread
          rw [hbal, hindex, hnone, hzero, hoffset]
          simp only [bind, Except.bind, ↓reduceIte]
          exact congrArg orError heq
        · simp only [bind, Except.bind, hoffset, ↓reduceIte]
  rw [prepareState_eq, prepareState_eq]
  unfold Crates.read
  simp only [hchanges]
  cases preExecutionChanges X ctx committed
      (X.readState (X.buildState db committed.bundle) unlisted.bal unlisted.balIndex) with
  | error e => trivial
  | ok changes =>
      simp only [Except.map, bind, Except.bind]
      apply Agree.bind_left
      intro txs _
      refine ⟨rfl, ?_, rfl, ?_, ?_⟩
      · rw [foldl_commit_core, foldl_commit_core]
      · rw [foldl_commit_bal]
        exact hbal
      · rw [foldl_commit_bal]
        exact hnone

theorem ran_sequentially (hlaws : ReadLaws X) {db : Db} {ctx : OpPayloadBuilderCtx Tx}
    {committedPayload : Option (OpBuiltPayload Tx)} {evmEnv : EvmEnv} {list : BlockAccessList}
    {bal : Bal} (htrue : Describes X db ctx committedPayload evmEnv list bal)
    {executed : Execution Tx}
    (h : execute X db ctx committedPayload (some list) evmEnv = .ok executed) :
    ∃ listed setup outcomes, Ran X db ctx evmEnv listed outcomes executed ∧
      listed.committed = setup.committed ∧
      runSequentially X db ctx committedPayload evmEnv = .ok (setup, outcomes) := by
  obtain ⟨listed, outcomes, hlisted, hran⟩ := execute_eq_ok.mp h
  have hagree := setUp_listed hlaws htrue
  rw [hlisted] at hagree
  cases hsetup : setUp X db ctx committedPayload none with
  | error e =>
      rw [hsetup] at hagree
      exact hagree.elim
  | ok setup =>
      rw [hsetup] at hagree
      obtain ⟨hcommitted, _, htxs, hbal, _⟩ := hagree
      refine ⟨listed, setup, outcomes, hran, hcommitted, ?_⟩
      have houtcomes := hran.ran
      rw [hcommitted, htxs, hbal,
        outcomes_eq_sequential hlaws (htrue.transactions setup hsetup)] at houtcomes
      unfold runSequentially
      simp only [hsetup, houtcomes, bind, Except.bind, orError, Except.mapError]
      rfl

/-- Every account and slot has, over the database below, the value it has
after the transactions ran one after the other. -/
def HasSequentialValues (X : Crates Tx Db Core) (below : Reader) (setup : Setup Tx Core)
    (outcomes : List (TxOutcome Tx)) (payload : OpBuiltPayload Tx) : Prop :=
  ∀ k, through payload.postState below k =
    through (sequentialBundle X setup outcomes).state below k

/-- Exactly when the parallel execution loses no update: whatever the committed
bundle holds and the last transaction does not write has its old value after
the sequential run too. -/
theorem updates_kept_iff (hreads : ReadLaws X) (hbundles : BundleLaws X) (below : Reader)
    {db stateProvider : Db} {ctx : OpPayloadBuilderCtx Tx} {committedPayload : OpBuiltPayload Tx}
    {list : BlockAccessList} {bal : Bal} {evmEnv : EvmEnv} {extraData : Bytes}
    {outcome : BuildOutcomeKind (OpBuiltPayload Tx)}
    (htrue : Describes X db ctx (some committedPayload) evmEnv list bal)
    (hbuild : build X db stateProvider ctx (some committedPayload) (some list) evmEnv extraData =
      .ok outcome) :
    ∃ setup outcomes payload, outcome.payload = some payload ∧
      runSequentially X db ctx (some committedPayload) evmEnv = .ok (setup, outcomes) ∧
      (HasSequentialValues X below setup outcomes payload ↔
        KeepsUpdates committedPayload.postState (writesOf outcomes)) := by
  obtain ⟨executed, payload, hexecuted, hpayload, houtcome⟩ := build_eq_ok.mp hbuild
  obtain ⟨listed, setup, outcomes, hran, hcommitted, hseq⟩ :=
    ran_sequentially hreads htrue hexecuted
  refine ⟨setup, outcomes, payload, ?_, hseq, ?_⟩
  · rw [houtcome]
    split <;> rfl
  obtain ⟨setup', hsetup, houtcomes⟩ := bind_eq_ok.mp hseq
  obtain ⟨_, _, heq⟩ := bind_eq_ok.mp houtcomes
  obtain ⟨rfl, _⟩ := Prod.mk.inj (Except.ok.inj heq)
  obtain ⟨_, _, _, hload, _⟩ := setUp_eq_ok.mp hsetup
  obtain ⟨hstate, _, _, _, hoffset⟩ := loadCommitted_some hload
  have hparallel : payload.postState = snapshots committedPayload.postState (writesOf outcomes) := by
    rw [(assembled hpayload).postState, merged_state hbundles hran, hcommitted, hstate]
  have hsequential : (sequentialBundle X setup' outcomes).state =
      overlays committedPayload.postState (writesOf outcomes) := by
    obtain ⟨_, changes, _, hchanges, hbundle⟩ := sequentialBundle_state hbundles hsetup outcomes
    have hoffset' : setup'.committed.transactionsOffset ≠ 0 := by
      rw [hoffset]
      exact Nat.succ_ne_zero _
    rw [hbundle, preExecutionChanges_of_committed hoffset' hchanges, hstate]
    rfl
  unfold HasSequentialValues
  rw [hparallel, hsequential, ← snapshots_eq_iff, funext_iff]
  apply forall_congr'
  intro k
  exact through_eq_iff (fun _ _ _ => Except.ok.inj) below (snapshots_isSome _ _ k)

/-! Two senders and a contract whose slot 0 the committed bundle holds: the
first transaction writes that slot, the second touches its sender only. -/

def sampleBundle : Changes StateKey.Value :=
  overlay (writesOfSender 1 { nonce := 1 }) (writesOfStores [(5, 0, 1)])

def firstWrites : List SampleTx :=
  [{ signer := 1, nonce := 1, stores := [(5, 0, 2)] }, { signer := 2 }]

def firstWritesList : BlockAccessList :=
  [{ address := 1, nonceChanges := [⟨2, 2⟩] },
    { address := 2, nonceChanges := [⟨3, 1⟩] },
    { address := 5, storageChanges := [⟨0, [⟨2, 2⟩]⟩] }]

def balOf (list : BlockAccessList) : Bal := ⟨ofPairs (list.map fromAlloySample)⟩

theorem describes_firstWrites : Describes sample {} (sampleCtx firstWrites)
    (some (samplePayload sampleBundle [])) {} firstWritesList (balOf firstWritesList) where
  loads := rfl
  preExecution := by
    intro committed builder hcommitted hoffset
    cases hcommitted
    cases hoffset
  transactions := by
    intro setup hsetup
    cases hsetup
    refine Agrees.cons ?_ ?_ rfl (Agrees.cons ?_ ?_ rfl trivial)
    · intro k hk
      rw [List.mem_singleton.mp hk]
      rfl
    · decide
    · intro k hk
      rw [List.mem_singleton.mp hk]
      rfl
    · decide

theorem updates_kept_iff_two_senders :
    ∃ outcome, build sample {} {} (sampleCtx firstWrites) (some (samplePayload sampleBundle []))
        (some firstWritesList) {} [] = .ok outcome ∧
      ∃ setup outcomes payload, outcome.payload = some payload ∧
        runSequentially sample {} (sampleCtx firstWrites)
          (some (samplePayload sampleBundle [])) {} = .ok (setup, outcomes) ∧
        (HasSequentialValues sample (SampleDb.query {}) setup outcomes payload ↔
          KeepsUpdates (samplePayload sampleBundle []).postState (writesOf outcomes)) := by
  have hok : (build sample {} {} (sampleCtx firstWrites) (some (samplePayload sampleBundle []))
      (some firstWritesList) {} []).isOk := rfl
  obtain ⟨outcome, hbuild⟩ := exists_ok hok
  exact ⟨outcome, hbuild, updates_kept_iff sample_readLaws sample_bundleLaws
    (SampleDb.query {}) describes_firstWrites hbuild⟩

/-- Slot 0 is back at 1, as the committed bundle has it. -/
theorem update_undone :
    ¬∀ outcome setup outcomes payload,
      build sample {} {} (sampleCtx firstWrites) (some (samplePayload sampleBundle []))
        (some firstWritesList) {} [] = .ok outcome →
      runSequentially sample {} (sampleCtx firstWrites)
        (some (samplePayload sampleBundle [])) {} = .ok (setup, outcomes) →
      outcome.payload = some payload →
        HasSequentialValues sample (SampleDb.query {}) setup outcomes payload := by
  intro hall
  have hparallel : (build sample {} {} (sampleCtx firstWrites)
      (some (samplePayload sampleBundle [])) (some firstWritesList) {} []).map
        (fun outcome => outcome.payload.map fun payload => payload.postState (.storage 5 0)) =
      .ok (some (some 1)) := rfl
  have hsequential : (runSequentially sample {} (sampleCtx firstWrites)
      (some (samplePayload sampleBundle [])) {}).map
        (fun run => (sequentialBundle sample run.1 run.2).state (.storage 5 0)) =
      .ok (some 2) := rfl
  obtain ⟨outcome, hbuild, houtcome⟩ := map_eq_ok.mp hparallel
  obtain ⟨payload, hpayload, hbuilt⟩ := Option.map_eq_some_iff.mp houtcome
  obtain ⟨run, hrun, hslot⟩ := map_eq_ok.mp hsequential
  have h := hall outcome run.1 run.2 payload hbuild hrun hpayload (.storage 5 0)
  unfold through at h
  rw [hbuilt, hslot] at h
  exact absurd (Except.ok.inj h) (by decide)

end WorldChain.Builder.Updates
