import WorldChain.Builder.Updates

/-! The flashblocks of one payload, each built on the payload before it, against
one `State` that takes the pre-execution changes and all of the transactions.
The builder commits the pre-execution changes to a `State` whose transitions it
never merges. -/
namespace WorldChain.Builder.PreExecution
open Library.Fallible Library.Overlay
open Wire.Primitives Deps.Revm Deps.Reth Deps.Calls Deps.Concrete
open Build Assemble Builder.Sequential Outcome Updates

variable {Tx Db Core : Type}

structure Step (Tx Core : Type) where
  evmEnv : EvmEnv
  setup : Setup Tx Core
  outcomes : List (TxOutcome Tx)
  payload : OpBuiltPayload Tx

structure Built (X : Crates Tx Db Core) (db stateProvider : Db) (ctx : OpPayloadBuilderCtx Tx)
    (committedPayload : Option (OpBuiltPayload Tx)) (bal : Option BlockAccessList)
    (extraData : Bytes) (step : Step Tx Core) : Prop where
  setup : setUp X db ctx committedPayload bal = .ok step.setup
  ran : step.setup.transactions.mapM (transactAt X step.evmEnv
    (parallelReader X db step.setup.committed.bundle step.setup.state.balState.bal)) =
      .ok step.outcomes
  built : (build X db stateProvider ctx committedPayload bal step.evmEnv extraData).map
    BuildOutcomeKind.payload = .ok (some step.payload)

/-- The flashblocks built for one payload so far, the latest first, and its
pre-execution changes. -/
inductive Chain (X : Crates Tx Db Core) (db stateProvider : Db) (pre : List EvmState) :
    List (Step Tx Core) → Prop
  | first {ctx : OpPayloadBuilderCtx Tx} {bal : Option BlockAccessList} {balState : BalState}
      {extraData : Bytes} {step : Step Tx Core}
      (hbuilt : Built X db stateProvider ctx none bal extraData step)
      (hbalState : initialBalState X ({} : Committed Tx) bal = .ok balState)
      (hpre : preExecutionChanges X ctx {}
        (X.readState (X.buildState db {}) balState.bal balState.balIndex) = .ok pre) :
      Chain X db stateProvider pre [step]
  | next {ctx : OpPayloadBuilderCtx Tx} {bal : Option BlockAccessList} {extraData : Bytes}
      {step prev : Step Tx Core} {older : List (Step Tx Core)}
      (hchain : Chain X db stateProvider pre (prev :: older))
      (hbuilt : Built X db stateProvider ctx (some prev.payload) bal extraData step) :
      Chain X db stateProvider pre (step :: prev :: older)

def changesOf : List (Step Tx Core) → List EvmState
  | [] => []
  | step :: older => changesOf older ++ step.outcomes.map TxOutcome.changes

/-- The bundle of one `State` on which all changes were committed and merged. -/
def oneBundle (X : Crates Tx Db Core) (db : Db) (changes : List EvmState) : BundleState :=
  X.takeBundle (X.mergeTransitions (changes.foldl X.commitState (X.buildState db {})))

/-- Every payload holds the pre-execution changes overlaid by those of all
transactions up to it. -/
def ReachesState (X : Crates Tx Db Core) (db : Db) (pre : List EvmState) :
    List (Step Tx Core) → Prop
  | [] => True
  | step :: older =>
      step.payload.postState = (oneBundle X db (pre ++ changesOf (step :: older))).state ∧
        ReachesState X db pre older

/-- The first flashblock writes whatever the pre-execution changes write, and
no later one has an update undone. -/
def CarriesWrites (pre : List EvmState) : List (Step Tx Core) → Prop
  | [] => True
  | [step] => ∀ k, (overlays blank (pre.map EvmState.writes) k).isSome →
      (overlays blank (writesOf step.outcomes) k).isSome
  | step :: prev :: older =>
      KeepsUpdates (overlays blank ((pre ++ changesOf (prev :: older)).map EvmState.writes))
          (writesOf step.outcomes) ∧
        CarriesWrites pre (prev :: older)

def AnsweredTruly (X : Crates Tx Db Core) (db : Db) (pre : List EvmState) :
    List (Step Tx Core) → Prop
  | [] => True
  | step :: older =>
      Agrees X step.evmEnv
          (parallelReader X db step.setup.committed.bundle step.setup.state.balState.bal)
          (X.readState step.setup.state.core step.setup.state.balState.bal)
          ((pre ++ changesOf older).foldl X.commit { core := X.buildState db {} })
          step.setup.transactions ∧
        AnsweredTruly X db pre older

def RunsOnOneState (X : Crates Tx Db Core) (db : Db) (pre : List EvmState) :
    List (Step Tx Core) → Prop
  | [] => True
  | step :: older =>
      sequentialOutcomes X step.evmEnv
          ((pre ++ changesOf older).foldl X.commit { core := X.buildState db {} })
          step.setup.transactions = .ok step.outcomes ∧
        RunsOnOneState X db pre older

variable {X : Crates Tx Db Core}

/-- The bundle of a built payload is a merge of snapshots of its prestate. -/
theorem Built.postState (hlaws : BundleLaws X) {db stateProvider : Db}
    {ctx : OpPayloadBuilderCtx Tx} {committedPayload : Option (OpBuiltPayload Tx)}
    {bal : Option BlockAccessList} {extraData : Bytes} {step : Step Tx Core}
    (h : Built X db stateProvider ctx committedPayload bal extraData step) :
    step.payload.postState =
      snapshots step.setup.committed.bundle.state (writesOf step.outcomes) := by
  obtain ⟨outcome, hbuild, hpayload⟩ := map_eq_ok.mp h.built
  obtain ⟨executed, payload, hexecuted, hassemble, houtcome⟩ := build_eq_ok.mp hbuild
  have heq : payload = step.payload := by
    rw [houtcome] at hpayload
    split at hpayload <;> exact Option.some.inj hpayload
  obtain ⟨setup, outcomes, hsetup, hran⟩ := execute_eq_ok.mp hexecuted
  have hsame := Except.ok.inj (hsetup.symm.trans h.setup)
  subst hsame
  have houtcomes := Except.ok.inj (hran.ran.symm.trans h.ran)
  subst houtcomes
  rw [← heq, (assembled hassemble).postState, merged_state hlaws hran]

theorem oneBundle_state (hlaws : BundleLaws X) (db : Db) (changes : List EvmState) :
    (oneBundle X db changes).state = overlays blank (changes.map EvmState.writes) :=
  hlaws.takeBundle db {} changes

theorem overlays_eq_right_iff {V : StateKey → Type} (below layers : List (Changes V)) :
    overlays blank layers = overlays blank (below ++ layers) ↔
      ∀ k, (overlays blank below k).isSome → (overlays blank layers k).isSome := by
  rw [overlays_append, overlays_eq (overlays blank below), funext_iff]
  apply forall_congr'
  intro k
  rw [overlay_apply]
  cases overlays blank layers k with
  | none => cases overlays blank below k <;> simp
  | some v => simp

theorem reaches_iff_carries (hlaws : BundleLaws X) {db stateProvider : Db} {pre : List EvmState}
    {history : List (Step Tx Core)} (hchain : Chain X db stateProvider pre history) :
    ReachesState X db pre history ↔ CarriesWrites pre history := by
  induction hchain with
  | @first ctx bal balState extraData step hbuilt _ _ =>
      obtain ⟨_, _, _, hload, _⟩ := setUp_eq_ok.mp hbuilt.setup
      have hstart : step.setup.committed.bundle.state = blank := by
        rw [loadCommitted_none hload]
      simp only [ReachesState, CarriesWrites, changesOf, List.nil_append, and_true]
      rw [hbuilt.postState hlaws, hstart, snapshots_blank, oneBundle_state hlaws, List.map_append,
        List.map_map]
      exact overlays_eq_right_iff _ _
  | @next ctx bal extraData step prev older hchain hbuilt ih =>
      rw [ReachesState, CarriesWrites, ih]
      apply and_congr_left
      intro hcarries
      have hprev := (ih.mpr hcarries).1
      obtain ⟨_, _, _, hload, _⟩ := setUp_eq_ok.mp hbuilt.setup
      have hstart := (loadCommitted_some hload).1.trans hprev
      have hall : (pre ++ changesOf (step :: prev :: older)).map EvmState.writes =
          (pre ++ changesOf (prev :: older)).map EvmState.writes ++ writesOf step.outcomes := by
        simp [changesOf, writesOf]
      rw [hbuilt.postState hlaws, hstart, oneBundle_state hlaws, oneBundle_state hlaws, hall,
        overlays_append]
      exact snapshots_eq_iff _ _

theorem runsOnOneState (hlaws : ReadLaws X) {db stateProvider : Db} {pre : List EvmState}
    {history : List (Step Tx Core)} (hchain : Chain X db stateProvider pre history)
    (htrue : AnsweredTruly X db pre history) : RunsOnOneState X db pre history := by
  induction hchain with
  | first hbuilt _ _ =>
      exact ⟨(outcomes_eq_sequential hlaws htrue.1).symm.trans hbuilt.ran, trivial⟩
  | next _ hbuilt ih =>
      exact ⟨(outcomes_eq_sequential hlaws htrue.1).symm.trans hbuilt.ran, ih htrue.2⟩

theorem exists_built {db stateProvider : Db} {ctx : OpPayloadBuilderCtx Tx}
    {committedPayload : Option (OpBuiltPayload Tx)} {bal : Option BlockAccessList}
    {evmEnv : EvmEnv} {extraData : Bytes} {payload : OpBuiltPayload Tx}
    (h : (build X db stateProvider ctx committedPayload bal evmEnv extraData).map
      BuildOutcomeKind.payload = .ok (some payload)) :
    ∃ step, step.payload = payload ∧
      Built X db stateProvider ctx committedPayload bal extraData step := by
  obtain ⟨outcome, hbuild, _⟩ := map_eq_ok.mp h
  obtain ⟨executed, _, hexecuted, _, _⟩ := build_eq_ok.mp hbuild
  obtain ⟨setup, outcomes, hsetup, hran⟩ := execute_eq_ok.mp hexecuted
  exact ⟨⟨evmEnv, setup, outcomes, payload⟩, rfl, hsetup, hran.ran, h⟩

theorem exists_chain {db stateProvider : Db} {ctx : OpPayloadBuilderCtx Tx}
    {bal : Option BlockAccessList} {evmEnv : EvmEnv} {extraData : Bytes}
    {payload : OpBuiltPayload Tx}
    (h : (build X db stateProvider ctx none bal evmEnv extraData).map
      BuildOutcomeKind.payload = .ok (some payload)) :
    ∃ (balState : BalState) (pre : List EvmState) (step : Step Tx Core), step.payload = payload ∧
      initialBalState X ({} : Committed Tx) bal = .ok balState ∧ preExecutionChanges X ctx {}
        (X.readState (X.buildState db {}) balState.bal balState.balIndex) = .ok pre ∧
      Chain X db stateProvider pre [step] := by
  obtain ⟨step, hpayload, hbuilt⟩ := exists_built h
  obtain ⟨balState, pre, hbalState, hpre, _⟩ := setUp_state hbuilt.setup
  obtain ⟨_, _, _, hload, _⟩ := setUp_eq_ok.mp hbuilt.setup
  rw [loadCommitted_none hload] at hbalState hpre
  exact ⟨balState, pre, step, hpayload, hbalState, hpre, .first hbuilt hbalState hpre⟩

/-- The pre-execution changes reach every built state of a payload exactly when
its flashblocks carry the writes themselves; and where all lookups are answered
truly, these are the writes of one sequential `State`. -/
theorem writes_reach_state_iff (hreads : ReadLaws X) (hbundles : BundleLaws X)
    {db stateProvider : Db} {pre : List EvmState} {history : List (Step Tx Core)}
    (hchain : Chain X db stateProvider pre history) :
    (ReachesState X db pre history ↔ CarriesWrites pre history) ∧
      (AnsweredTruly X db pre history → RunsOnOneState X db pre history) :=
  ⟨reaches_iff_carries hbundles hchain, runsOnOneState hreads hchain⟩

/-- An empty first flashblock: the beacon root is the only write. -/
theorem sample_chain : ∃ pre step, Chain sample {} {} pre [step] ∧
    overlays blank (pre.map EvmState.writes) (.storage beaconRoots 0) = some 9 ∧
    step.payload.postState (.storage beaconRoots 0) = none := by
  have hslot : (build sample {} {} (sampleCtx []) none none {} []).map
      (fun outcome => outcome.payload.map fun payload =>
        payload.postState (.storage beaconRoots 0)) = .ok (some none) := rfl
  obtain ⟨outcome, hbuild, houtcome⟩ := map_eq_ok.mp hslot
  obtain ⟨payload, hpayload, hnone⟩ := Option.map_eq_some_iff.mp houtcome
  have hbuilt := map_eq_ok.mpr ⟨outcome, hbuild, hpayload⟩
  obtain ⟨balState, pre, step, rfl, hbalState, hpre, hchain⟩ := exists_chain hbuilt
  cases hbalState
  have hroot : pre = [storesRoot 9] := (Except.ok.inj hpre).symm
  refine ⟨pre, step, hchain, ?_, hnone⟩
  rw [hroot]
  rfl

theorem writes_reach_state_iff_beacon_root :
    ∃ pre step, Chain sample {} {} pre [step] ∧
      (ReachesState sample {} pre [step] ↔ CarriesWrites pre [step]) ∧
      (AnsweredTruly sample {} pre [step] → RunsOnOneState sample {} pre [step]) := by
  obtain ⟨pre, step, hchain, _, _⟩ := sample_chain
  exact ⟨pre, step, hchain, writes_reach_state_iff sample_readLaws sample_bundleLaws hchain⟩

theorem beacon_root_lost :
    ¬∀ pre history, Chain sample {} {} pre history → ReachesState sample {} pre history := by
  intro hall
  obtain ⟨pre, step, hchain, hroot, hnone⟩ := sample_chain
  have hreaches := (hall pre [step] hchain).1
  rw [oneBundle_state sample_bundleLaws, List.map_append, overlays_append] at hreaches
  have hslot := congrFun hreaches (.storage beaconRoots 0)
  rw [hnone, overlays_eq, overlay_apply, hroot, eq_comm, Option.or_eq_none_iff] at hslot
  cases hslot.2

end WorldChain.Builder.PreExecution
