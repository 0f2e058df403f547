import WorldChain.Builder.Assemble
import WorldChain.Deps.Concrete
import WorldChain.Library.Fallible

/-! The transactions of a flashblock run one after the other on one `State`,
and what makes the separate runs of the builder come to the same. -/
namespace WorldChain.Builder.Sequential
open Library.Fallible Wire.Primitives Deps.Revm Deps.Reth Deps.Calls Deps.Concrete Build

variable {Tx Db Core : Type} (X : Crates Tx Db Core)

structure TxOutcome (Tx : Type) where
  tx : Recovered Tx
  index : BalIndex
  result : ExecutionResult
  changes : EvmState

def transactAt (evmEnv : EvmEnv) (readAt : BalIndex → Reader) (indexed : Recovered Tx × BalIndex) :
    Except String (TxOutcome Tx) :=
  (X.transact evmEnv indexed.1 (readAt indexed.2)).map fun executed =>
    ⟨indexed.1, indexed.2, executed.1, executed.2⟩

def sequentialOutcomes (evmEnv : EvmEnv) (state : State Core) :
    List (Recovered Tx × BalIndex) → Except String (List (TxOutcome Tx))
  | [] => .ok []
  | indexed :: rest => do
      let outcome ← transactAt X evmEnv (fun _ => X.read state) indexed
      let outcomes ← sequentialOutcomes evmEnv (X.commit state outcome.changes) rest
      return outcome :: outcomes

/-- The sequential run of a flashblock: its start is the `State` that `build`
prepares when there is no access list. -/
def runSequentially (db : Db) (ctx : OpPayloadBuilderCtx Tx)
    (committedPayload : Option (OpBuiltPayload Tx)) (evmEnv : EvmEnv) :
    Except Failure (Setup Tx Core × List (TxOutcome Tx)) := do
  let setup ← setUp X db ctx committedPayload none
  let outcomes ← orError (sequentialOutcomes X evmEnv setup.state setup.transactions)
  return (setup, outcomes)

/-- What a transaction looks up, in its execution or for its deposit nonce, is
answered as in the sequential run. -/
def Agrees (evmEnv : EvmEnv) (readTx readNonce : BalIndex → Reader) :
    State Core → List (Recovered Tx × BalIndex) → Prop
  | _, [] => True
  | state, indexed :: rest =>
      (∀ k ∈ X.transactReads evmEnv indexed.1 (X.read state),
        readTx indexed.2 k = X.read state k) ∧
      (X.isDeposit indexed.1.inner →
        readNonce indexed.2 (.account indexed.1.signer) =
          X.read state (.account indexed.1.signer)) ∧
      ∀ executed, X.transact evmEnv indexed.1 (X.read state) = .ok executed →
        Agrees evmEnv readTx readNonce (X.commit state executed.2) rest

def parallelReader (db : Db) (bundle : BundleState) (bal : Option Bal) (index : BalIndex) : Reader :=
  X.readState (X.buildState db bundle) bal index

/-- The access list answers, at the index of each transaction, what that
transaction reads in the sequential run. -/
structure Describes (db : Db) (ctx : OpPayloadBuilderCtx Tx)
    (committedPayload : Option (OpBuiltPayload Tx)) (evmEnv : EvmEnv) (list : BlockAccessList)
    (bal : Bal) : Prop where
  loads : loadBal X list = .ok bal
  preExecution : ∀ committed builder, loadCommitted X committedPayload = .ok committed →
    committed.transactionsOffset = 0 → blockBuilder X ctx committed = .ok builder →
      ∀ k ∈ X.preExecutionReads builder.executionCtx builder.evmEnv
          (parallelReader X db committed.bundle none 0),
        parallelReader X db committed.bundle (some bal) 0 k =
          parallelReader X db committed.bundle none 0 k
  transactions : ∀ setup, setUp X db ctx committedPayload none = .ok setup →
    Agrees X evmEnv (parallelReader X db setup.committed.bundle (some bal))
      (X.readState setup.state.core (some bal)) setup.state setup.transactions

/-- A transaction is a function of what it reads. -/
structure ReadLaws : Prop where
  transact : ∀ evmEnv tx read read',
    (∀ k ∈ X.transactReads evmEnv tx read, read' k = read k) →
      X.transact evmEnv tx read' = X.transact evmEnv tx read
  preExecution : ∀ executionCtx evmEnv read read',
    (∀ k ∈ X.preExecutionReads executionCtx evmEnv read, read' k = read k) →
      X.preExecution executionCtx evmEnv read' = X.preExecution executionCtx evmEnv read

theorem sample_readLaws : ReadLaws sample where
  transact evmEnv tx read read' h := by
    have hread : read' (.account tx.signer) = read (.account tx.signer) :=
      h _ List.mem_cons_self
    simp only [sample, transactSample, hread]
  preExecution executionCtx evmEnv read read' h := by
    have haccount : read' (.account beaconRoots) = read (.account beaconRoots) :=
      h _ List.mem_cons_self
    have hslot : read' (.storage beaconRoots 0) = read (.storage beaconRoots 0) :=
      h _ (List.mem_cons_of_mem _ List.mem_cons_self)
    simp only [sample, preExecutionSample, haccount, hslot]

variable {X}

theorem Agrees.cons {evmEnv : EvmEnv} {readTx readNonce : BalIndex → Reader} {state : State Core}
    {indexed : Recovered Tx × BalIndex} {rest : List (Recovered Tx × BalIndex)}
    {executed : ExecutionResult × EvmState}
    (hreads : ∀ k ∈ X.transactReads evmEnv indexed.1 (X.read state),
      readTx indexed.2 k = X.read state k)
    (hnonce : X.isDeposit indexed.1.inner →
      readNonce indexed.2 (.account indexed.1.signer) = X.read state (.account indexed.1.signer))
    (hexecuted : X.transact evmEnv indexed.1 (X.read state) = .ok executed)
    (hrest : Agrees X evmEnv readTx readNonce (X.commit state executed.2) rest) :
    Agrees X evmEnv readTx readNonce state (indexed :: rest) := by
  refine ⟨hreads, hnonce, ?_⟩
  intro executed' h
  rw [Except.ok.inj (h.symm.trans hexecuted)]
  exact hrest

theorem transactAt_eq_ok {evmEnv : EvmEnv} {readAt : BalIndex → Reader}
    {indexed : Recovered Tx × BalIndex} {outcome : TxOutcome Tx} :
    transactAt X evmEnv readAt indexed = .ok outcome ↔
      X.transact evmEnv indexed.1 (readAt indexed.2) = .ok (outcome.result, outcome.changes) ∧
        outcome.tx = indexed.1 ∧ outcome.index = indexed.2 := by
  unfold transactAt
  rw [map_eq_ok]
  constructor
  · rintro ⟨executed, hexecuted, rfl⟩
    exact ⟨hexecuted, rfl, rfl⟩
  · rintro ⟨hexecuted, htx, hindex⟩
    refine ⟨_, hexecuted, ?_⟩
    rw [← htx, ← hindex]

/-- Separate runs whose reads agree are the sequential run. -/
theorem outcomes_eq_sequential (hlaws : ReadLaws X) {evmEnv : EvmEnv}
    {readTx readNonce : BalIndex → Reader} {state : State Core}
    {txs : List (Recovered Tx × BalIndex)} (hagrees : Agrees X evmEnv readTx readNonce state txs) :
    txs.mapM (transactAt X evmEnv readTx) = sequentialOutcomes X evmEnv state txs := by
  induction txs generalizing state with
  | nil => rfl
  | cons indexed rest ih =>
      obtain ⟨hreads, _, hrest⟩ := hagrees
      have hfirst : transactAt X evmEnv readTx indexed =
          transactAt X evmEnv (fun _ => X.read state) indexed := by
        unfold transactAt
        rw [hlaws.transact evmEnv indexed.1 (X.read state) (readTx indexed.2) hreads]
      rw [List.mapM_cons, hfirst, sequentialOutcomes]
      cases hexecuted : transactAt X evmEnv (fun _ => X.read state) indexed with
      | error e => rfl
      | ok outcome =>
          have htail := ih (hrest _ (transactAt_eq_ok.mp hexecuted).1)
          simp only [bind, Except.bind, htail]

def TxOutcome.parallelResult (X : Crates Tx Db Core) (db : Db) (bundle : BundleState)
    (balState : BalState) (outcome : TxOutcome Tx) : ParallelResult Tx where
  index := outcome.index
  bundleState := X.takeBundle (X.mergeTransitions
    (X.commitState (X.buildState db bundle) outcome.changes))
  execResult := outcome.result
  tx := outcome.tx
  bal := balState.balBuilder.map (X.recordAccesses · outcome.index outcome.changes)

theorem executeParallel_eq (db : Db) (bundle : BundleState) (balState : BalState) (evmEnv : EvmEnv)
    (indexed : Recovered Tx × BalIndex) :
    executeParallel X db bundle balState evmEnv indexed =
      orError ((transactAt X evmEnv (parallelReader X db bundle balState.bal) indexed).map
        (TxOutcome.parallelResult X db bundle balState)) := by
  have hread : X.read (parallelState X db bundle balState indexed.2) =
      parallelReader X db bundle balState.bal indexed.2 := rfl
  unfold executeParallel Crates.transactCommit transactAt
  rw [hread]
  cases X.transact evmEnv indexed.1 (parallelReader X db bundle balState.bal indexed.2) <;> rfl

theorem parallelResults_eq (db : Db) (bundle : BundleState) (balState : BalState) (evmEnv : EvmEnv)
    (txs : List (Recovered Tx × BalIndex)) :
    txs.mapM (executeParallel X db bundle balState evmEnv) =
      orError ((txs.mapM (transactAt X evmEnv (parallelReader X db bundle balState.bal))).map
        (List.map (TxOutcome.parallelResult X db bundle balState))) := by
  induction txs with
  | nil => rfl
  | cons indexed rest ih =>
      rw [List.mapM_cons, List.mapM_cons, executeParallel_eq, ih]
      cases transactAt X evmEnv (parallelReader X db bundle balState.bal) indexed with
      | error e => rfl
      | ok outcome =>
          cases rest.mapM (transactAt X evmEnv (parallelReader X db bundle balState.bal)) <;> rfl

end WorldChain.Builder.Sequential
