import WorldChain.Builder.Updates

/-! Building with and without an access list. Both take the same parallel loop,
so without the list every transaction is answered from the state before the
flashblock. -/
namespace WorldChain.Builder.Accelerator
open Library.Fallible Library.Overlay
open Wire.Primitives Deps.Revm Deps.Reth Deps.Calls Deps.Concrete
open Build Assemble Builder.Sequential Outcome Updates

variable {Tx Db Core : Type} {X : Crates Tx Db Core}

/-- No transaction looks up an account or slot that has changed since the start
of the flashblock: the stale answers are those of the sequential run. -/
def Independent (X : Crates Tx Db Core) (db : Db) (ctx : OpPayloadBuilderCtx Tx)
    (committedPayload : Option (OpBuiltPayload Tx)) (evmEnv : EvmEnv) : Prop :=
  ∀ setup, setUp X db ctx committedPayload none = .ok setup →
    Agrees X evmEnv (parallelReader X db setup.committed.bundle none)
      (X.readState setup.state.core none) setup.state setup.transactions

theorem nonces_agree {evmEnv : EvmEnv} {readTx readTx' readNonce readNonce' : BalIndex → Reader}
    {state : State Core} {txs : List (Recovered Tx × BalIndex)}
    (h : Agrees X evmEnv readTx readNonce state txs)
    (h' : Agrees X evmEnv readTx' readNonce' state txs) {outcomes : List (TxOutcome Tx)}
    (houtcomes : sequentialOutcomes X evmEnv state txs = .ok outcomes) :
    ∀ outcome ∈ outcomes, X.isDeposit outcome.tx.inner →
      readNonce outcome.index (.account outcome.tx.signer) =
        readNonce' outcome.index (.account outcome.tx.signer) := by
  induction txs generalizing state outcomes with
  | nil =>
      cases houtcomes
      simp
  | cons indexed rest ih =>
      obtain ⟨first, hfirst, htail⟩ := bind_eq_ok.mp houtcomes
      obtain ⟨others, hothers, heq⟩ := bind_eq_ok.mp htail
      cases heq
      obtain ⟨hexecuted, htx, hindex⟩ := transactAt_eq_ok.mp hfirst
      intro outcome hmem hdeposit
      rcases List.mem_cons.mp hmem with rfl | hrest
      · rw [htx] at hdeposit
        rw [htx, hindex, h.2.1 hdeposit, h'.2.1 hdeposit]
      · exact ih (h.2.2 _ hexecuted) (h'.2.2 _ hexecuted) hothers outcome hrest hdeposit

def SameResult (X : Crates Tx Db Core) (state state' : State Core)
    (result result' : ParallelResult Tx) : Prop :=
  result.bundleState = result'.bundleState ∧ result.execResult = result'.execResult ∧
    result.tx = result'.tx ∧
    (X.isDeposit result.tx.inner →
      X.read (state.setBalIndex result.index) (.account result.tx.signer) =
        X.read (state'.setBalIndex result'.index) (.account result.tx.signer))

def SameMerged (merged merged' : Merged) : Prop :=
  merged.bundle = merged'.bundle ∧ merged.receipts = merged'.receipts ∧
    merged.cumulativeGasUsed = merged'.cumulativeGasUsed ∧ merged.fees = merged'.fees

theorem nonceOrFee_congr {basefee : UInt64} {state state' : State Core}
    {result result' : ParallelResult Tx} (h : SameResult X state state' result result') :
    nonceOrFee X basefee state result = nonceOrFee X basefee state' result' := by
  obtain ⟨_, hresult, htx, hnonce⟩ := h
  unfold nonceOrFee
  by_cases hdeposit : X.isDeposit result.tx.inner
  · rw [hnonce hdeposit, ← htx]
    simp only [hdeposit, ↓reduceIte]
  · rw [← htx, ← hresult, if_neg hdeposit, if_neg hdeposit]

theorem mergeResult_agree {ctx : OpPayloadBuilderCtx Tx} {basefee : UInt64}
    {state state' : State Core} {merged merged' : Merged} {result result' : ParallelResult Tx}
    (hmerged : SameMerged merged merged') (hresult : SameResult X state state' result result') :
    Agree SameMerged (mergeResult X ctx basefee state merged result)
      (mergeResult X ctx basefee state' merged' result') := by
  obtain ⟨hbundle, hreceipts, hgas, hfees⟩ := hmerged
  unfold mergeResult
  rw [nonceOrFee_congr hresult]
  apply Agree.bind_left
  intro charged _
  refine ⟨?_, ?_, ?_, ?_⟩
  · simp only [hbundle, hresult.1]
  · simp only [hreceipts, hgas, hresult.2.1, hresult.2.2.1]
  · simp only [hgas, hresult.2.1]
  · simp only [hfees]

/-- What a build returns, its access list and the hashes over it aside. -/
def SameOutcome (outcome outcome' : BuildOutcomeKind (OpBuiltPayload Tx)) : Prop :=
  ∃ payload payload', outcome.payload = some payload ∧ outcome'.payload = some payload' ∧
    payload.receipts = payload'.receipts ∧ payload.fees = payload'.fees ∧
    payload.block.header.gasUsed = payload'.block.header.gasUsed ∧
    payload.postState = payload'.postState

theorem assemble_agree {stateProvider : Db} {ctx : OpPayloadBuilderCtx Tx} {evmEnv : EvmEnv}
    {extraData : Bytes} {executed executed' : Execution Tx}
    (h : SameMerged executed.merged executed'.merged) :
    Agree (fun payload payload' : OpBuiltPayload Tx =>
        payload.receipts = payload'.receipts ∧ payload.fees = payload'.fees ∧
          payload.block.header.gasUsed = payload'.block.header.gasUsed ∧
          payload.postState = payload'.postState)
      (assemble X stateProvider ctx evmEnv extraData executed)
      (assemble X stateProvider ctx evmEnv extraData executed') := by
  obtain ⟨hbundle, hreceipts, hgas, hfees⟩ := h
  unfold assemble
  simp only [hbundle]
  apply Agree.bind_left
  intro roots _
  apply Agree.bind_left
  intro stateRoot _
  exact ⟨congrArg (fun receipts => [receipts].flatten) hreceipts, hfees, hgas, rfl⟩

theorem merge_agree {db : Db} {bundle : BundleState} {ctx : OpPayloadBuilderCtx Tx}
    {basefee : UInt64} {state state' : State Core} {outcomes : List (TxOutcome Tx)}
    (hnonces : ∀ outcome ∈ outcomes, X.isDeposit outcome.tx.inner →
      X.readState state.core state.balState.bal outcome.index (.account outcome.tx.signer) =
        X.readState state'.core state'.balState.bal outcome.index (.account outcome.tx.signer))
    (start : Merged) :
    Agree SameMerged
      ((outcomes.map (TxOutcome.parallelResult X db bundle state.balState)).foldlM
        (mergeResult X ctx basefee state) start)
      ((outcomes.map (TxOutcome.parallelResult X db bundle state'.balState)).foldlM
        (mergeResult X ctx basefee state') start) := by
  have hresults : List.Forall₂ (SameResult X state state')
      (outcomes.map (TxOutcome.parallelResult X db bundle state.balState))
      (outcomes.map (TxOutcome.parallelResult X db bundle state'.balState)) := by
    rw [List.forall₂_map_left_iff, List.forall₂_map_right_iff, List.forall₂_same]
    intro outcome hmem
    exact ⟨rfl, rfl, rfl, hnonces outcome hmem⟩
  have hstart : SameMerged start start := ⟨rfl, rfl, rfl, rfl⟩
  exact Agree.foldlM (fun _ _ _ _ => mergeResult_agree) hresults hstart

theorem execute_agree (hlaws : ReadLaws X) {db : Db} {ctx : OpPayloadBuilderCtx Tx}
    {committedPayload : Option (OpBuiltPayload Tx)} {evmEnv : EvmEnv} {list : BlockAccessList}
    {bal : Bal} (htrue : Describes X db ctx committedPayload evmEnv list bal)
    (hindependent : Independent X db ctx committedPayload evmEnv) :
    Agree (fun executed executed' : Execution Tx => SameMerged executed.merged executed'.merged)
      (execute X db ctx committedPayload (some list) evmEnv)
      (execute X db ctx committedPayload none evmEnv) := by
  have hsetups := setUp_listed hlaws htrue
  cases hlisted : setUp X db ctx committedPayload (some list) with
  | error e =>
      cases hunlisted : setUp X db ctx committedPayload none with
      | error e' =>
          unfold execute
          rw [hlisted, hunlisted]
          trivial
      | ok unlisted =>
          rw [hlisted, hunlisted] at hsetups
          exact hsetups.elim
  | ok listed =>
      cases hunlisted : setUp X db ctx committedPayload none with
      | error e' =>
          rw [hlisted, hunlisted] at hsetups
          exact hsetups.elim
      | ok unlisted =>
          rw [hlisted, hunlisted] at hsetups
          obtain ⟨hcommitted, hcore, htxs, hbal, hnone⟩ := hsetups
          have hagrees := htrue.transactions unlisted hunlisted
          have hstale := hindependent unlisted hunlisted
          rw [execute_of_setUp evmEnv hlisted, execute_of_setUp evmEnv hunlisted, hcommitted, htxs,
            hbal, hnone, outcomes_eq_sequential hlaws hagrees, outcomes_eq_sequential hlaws hstale]
          cases houtcomes : sequentialOutcomes X evmEnv unlisted.state unlisted.transactions with
          | error e => trivial
          | ok outcomes =>
              have hnonces : ∀ outcome ∈ outcomes, X.isDeposit outcome.tx.inner →
                  X.readState listed.state.core listed.state.balState.bal outcome.index
                      (.account outcome.tx.signer) =
                    X.readState unlisted.state.core unlisted.state.balState.bal outcome.index
                      (.account outcome.tx.signer) := by
                rw [hcore, hbal, hnone]
                exact nonces_agree hagrees hstale houtcomes
              exact (merge_agree hnonces unlisted.committed.merged).map fun _ _ h => h

/-- The access list is only an accelerator for flashblocks in which nothing is
looked up that has changed since their start. -/
theorem list_only_accelerates (hlaws : ReadLaws X) {db stateProvider : Db}
    {ctx : OpPayloadBuilderCtx Tx} {committedPayload : Option (OpBuiltPayload Tx)}
    {evmEnv : EvmEnv} {list : BlockAccessList} {bal : Bal} (extraData : Bytes)
    (htrue : Describes X db ctx committedPayload evmEnv list bal)
    (hindependent : Independent X db ctx committedPayload evmEnv) :
    Agree SameOutcome
      (build X db stateProvider ctx committedPayload (some list) evmEnv extraData)
      (build X db stateProvider ctx committedPayload none evmEnv extraData) := by
  unfold build
  refine Agree.bind (execute_agree hlaws htrue hindependent) ?_
  intro executed executed' _ _ hmerged
  refine Agree.bind (assemble_agree hmerged) ?_
  intro payload payload' _ _ hsame
  refine ⟨payload, payload', ?_, ?_, hsame⟩
  · split <;> rfl
  · split <;> rfl

/-! Two transfers of one sender: the second needs the nonce of the first. -/

def sameSender : List SampleTx := [{ signer := 1 }, { signer := 1, nonce := 1 }]

def sameSenderList : BlockAccessList :=
  [{ address := 1, nonceChanges := [⟨1, 1⟩, ⟨2, 2⟩] }, rootEntry]

def otherSender : List SampleTx := [{ signer := 1 }, { signer := 2 }]

def otherSenderList : BlockAccessList :=
  [{ address := 1, nonceChanges := [⟨1, 1⟩] }, { address := 2, nonceChanges := [⟨2, 1⟩] }, rootEntry]

theorem read_rootEntry (bundle : BundleState) {bal : Bal}
    (hentry : bal.accounts.lookup beaconRoots = some (fromAlloySample rootEntry).2) :
    ∀ k ∈ [StateKey.account beaconRoots, .storage beaconRoots 0],
      parallelReader sample {} bundle (some bal) 0 k = parallelReader sample {} bundle none 0 k := by
  intro k hk
  -- the entry is written at index 0, which only later indices see
  obtain ⟨hlookup, hlisted, hvalue⟩ :
      bal.accounts.lookup (StateKey.address k) = some (fromAlloySample rootEntry).2 ∧
        listed (fromAlloySample rootEntry).2 k = true ∧
          balValue (fromAlloySample rootEntry).2 0 k = id := by
    rcases List.mem_pair.mp hk with rfl | rfl
    · exact ⟨hentry, rfl, rfl⟩
    · exact ⟨hentry, rfl, rfl⟩
  change readSample _ (some bal) 0 k = readSample _ none 0 k
  simp only [readSample, hlookup, hlisted, hvalue, if_true, Except.map_id, id]

theorem describes_otherSender :
    Describes sample {} (sampleCtx otherSender) none {} otherSenderList (balOf otherSenderList) where
  loads := rfl
  preExecution committed _ _ _ _ := read_rootEntry committed.bundle rfl
  transactions := by
    intro setup hsetup
    cases hsetup
    refine Agrees.cons ?_ ?_ rfl (Agrees.cons ?_ ?_ rfl trivial)
    · intro k hk
      rw [List.mem_singleton.mp hk]
      rfl
    · decide
    · intro k hk
      rw [List.mem_singleton.mp hk]
      rfl
    · decide

theorem independent_otherSender : Independent sample {} (sampleCtx otherSender) none {} := by
  intro setup hsetup
  cases hsetup
  refine Agrees.cons ?_ ?_ rfl (Agrees.cons ?_ ?_ rfl trivial)
  · intro k hk
    rw [List.mem_singleton.mp hk]
    rfl
  · decide
  · intro k hk
    rw [List.mem_singleton.mp hk]
    rfl
  · decide

theorem list_only_accelerates_two_senders :
    Agree SameOutcome
      (build sample {} {} (sampleCtx otherSender) none (some otherSenderList) {} [])
      (build sample {} {} (sampleCtx otherSender) none none {} []) :=
  list_only_accelerates sample_readLaws [] describes_otherSender independent_otherSender

theorem describes_sameSender :
    Describes sample {} (sampleCtx sameSender) none {} sameSenderList (balOf sameSenderList) where
  loads := rfl
  preExecution committed _ _ _ _ := read_rootEntry committed.bundle rfl
  transactions := by
    intro setup hsetup
    cases hsetup
    refine Agrees.cons ?_ ?_ rfl (Agrees.cons ?_ ?_ rfl trivial)
    · intro k hk
      rw [List.mem_singleton.mp hk]
      rfl
    · decide
    · intro k hk
      rw [List.mem_singleton.mp hk]
      rfl
    · decide

/-- With its access list the flashblock is built, without it the second
transaction fails on a nonce that is still 0. -/
theorem list_decides :
    ¬∀ txs list bal, Describes sample {} (sampleCtx txs) none {} list bal →
      Agree SameOutcome (build sample {} {} (sampleCtx txs) none (some list) {} [])
        (build sample {} {} (sampleCtx txs) none none {} []) := by
  intro hall
  have h := hall sameSender sameSenderList _ describes_sameSender
  have hlisted : (build sample {} {} (sampleCtx sameSender) none (some sameSenderList) {} []).isOk :=
    rfl
  obtain ⟨outcome, hbuild⟩ := exists_ok hlisted
  have hunlisted : build sample {} {} (sampleCtx sameSender) none none {} [] =
      .error (.error "nonce mismatch") := rfl
  rw [hbuild, hunlisted] at h
  exact h

end WorldChain.Builder.Accelerator
