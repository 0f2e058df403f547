import WorldChain.Deps.Reth

/-! The calls into revm, alloy and reth. What the proofs rely on is stated
beside the results that use it. -/
namespace WorldChain.Deps.Calls
open Library.Overlay Wire.Primitives Revm Reth

structure Crates (Tx Db Core : Type) where
  /-- `State::builder()` with a database, a bundle prestate and bundle updates. -/
  buildState : Db → BundleState → Core
  /-- `Database::basic` and `storage` of a `State`; the builder of a list is not read. -/
  readState : Core → Option Bal → BalIndex → Reader
  commitState : Core → EvmState → Core
  /-- `Bal::update_account` for every account of a committed state. -/
  recordAccesses : Bal → BalIndex → EvmState → Bal
  mergeTransitions : Core → Core
  takeBundle : Core → BundleState
  extendBundle : BundleState → BundleState → BundleState
  extendAccountInfo : AccountInfoBal → AccountInfoBal → AccountInfoBal
  extendStorage : StorageBal → StorageBal → StorageBal
  tryFromAlloy : AccountChanges → Option (Address × AccountBal)
  intoAlloyBal : Bal → BlockAccessList
  /-- The EVM without the commit, and the keys it looks up. -/
  transact : EvmEnv → Recovered Tx → Reader → Except String (ExecutionResult × EvmState)
  transactReads : EvmEnv → Recovered Tx → Reader → List StateKey
  /-- The changes that `apply_pre_execution_changes` commits one by one. -/
  preExecution : OpBlockExecutionCtx → EvmEnv → Reader → Except String (List EvmState)
  preExecutionReads : OpBlockExecutionCtx → EvmEnv → Reader → List StateKey
  nextEvmEnv : Header → OpNextBlockEnvAttributes → Except String EvmEnv
  contextForNextBlock : SealedHeader → OpNextBlockEnvAttributes → Except String OpBlockExecutionCtx
  getHoloceneExtraData : OpPayloadBuilderAttributes Tx → BaseFeeParams → Except String Bytes
  encodeHoloceneExtraData : B64 → BaseFeeParams → Except String Bytes
  decode2718Exact : Bytes → Except String Tx
  encoded2718 : Tx → Bytes
  tryIntoRecovered : Tx → Except String (Recovered Tx)
  txType : Tx → OpTxType
  effectiveTipPerGas : Tx → UInt64 → Option Nat
  calculateTransactionRoot : List (Recovered Tx) → B256
  calculateReceiptRoot : List OpReceipt → OpChainSpec → UInt64 → B256
  logsBloom : List Log → Bloom
  /-- Storage root of the message passer predeploy under a bundle. -/
  withdrawalsRoot : BundleState → Db → Except String B256
  /-- `state_root_with_updates` of the hashed post state. -/
  stateRoot : Db → BundleState → Except String B256
  computeBlockAccessListHash : BlockAccessList → B256
  hashSlow : Header → B256
  emptyOmmerRootHash : B256
  emptyRequestsHash : B256
  emptyWithdrawals : B256
  beaconNonce : B64

variable {Tx Db Core : Type} (X : Crates Tx Db Core)

def Crates.isDeposit (tx : Tx) : Bool := X.txType tx = .deposit

def Crates.blockHash (block : Block Tx) : B256 := X.hashSlow block.header

def Crates.read (state : State Core) : Reader :=
  X.readState state.core state.balState.bal state.balState.balIndex

/-- `DatabaseCommit::commit`: the changes go to the cache and the transitions,
the accesses to the list builder when there is one. -/
def Crates.commit (state : State Core) (changes : EvmState) : State Core where
  core := X.commitState state.core changes
  balState := { state.balState with
    balBuilder := state.balState.balBuilder.map (X.recordAccesses · state.balState.balIndex changes) }

def Crates.transactCommit (evmEnv : EvmEnv) (tx : Recovered Tx) (state : State Core) :
    Except String (ExecutionResult × State Core) := do
  let outcome ← X.transact evmEnv tx (X.read state)
  return (outcome.1, X.commit state outcome.2)

@[simp] theorem commit_bal (state : State Core) (changes : EvmState) :
    (X.commit state changes).balState.bal = state.balState.bal := rfl

@[simp] theorem commit_balIndex (state : State Core) (changes : EvmState) :
    (X.commit state changes).balState.balIndex = state.balState.balIndex := rfl

@[simp] theorem commit_core (state : State Core) (changes : EvmState) :
    (X.commit state changes).core = X.commitState state.core changes := rfl

theorem foldl_commit_core (changes : List EvmState) (state : State Core) :
    (changes.foldl X.commit state).core = changes.foldl X.commitState state.core := by
  induction changes generalizing state with
  | nil => rfl
  | cons first rest ih => rw [List.foldl_cons, List.foldl_cons, ih, commit_core]

theorem foldl_commit_bal (changes : List EvmState) (state : State Core) :
    (changes.foldl X.commit state).balState.bal = state.balState.bal := by
  induction changes generalizing state with
  | nil => rfl
  | cons first rest ih => rw [List.foldl_cons, ih, commit_bal]

end WorldChain.Deps.Calls
