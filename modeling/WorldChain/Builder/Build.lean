import Mathlib.Data.List.Sort
import WorldChain.Deps.Calls
import WorldChain.Step.Reverts

/-! `FlashblockBuilder::build`. The transactions of a flashblock are executed
each on a `State` of its own and their results merged in index order; the
parallel iterator is modelled in order, up to which of several errors wins. -/
namespace WorldChain.Builder.Build
open Library.Upsert Wire.Primitives Deps.Revm Deps.Reth Deps.Calls Step.Reverts

variable {Tx Db Core : Type} (X : Crates Tx Db Core)

/-- What the build starts from. -/
structure Committed (Tx : Type) where
  bundle : BundleState := {}
  receipts : List OpReceipt := []
  transactions : List (Recovered Tx) := []
  gasUsed : Option UInt64 := none
  fees : U256 := 0
  previousBal : Option BlockAccessList := some []
  transactionsOffset : BalIndex := 0

def recover (tx : Tx) (message : String → String) : Except Failure (Recovered Tx) :=
  match X.tryIntoRecovered tx with
  | .ok recovered => .ok recovered
  | .error shown => .error (.error (message shown))

def loadCommitted : Option (OpBuiltPayload Tx) → Except Failure (Committed Tx)
  | none => .ok {}
  | some payload =>
      match payload.executedBlock with
      | none => .error (.error "missing payload")
      | some executed => do
          let transactions ← payload.block.body.transactions.mapM fun tx =>
            recover X tx fun _ => "tx recovery failed"
          return {
            bundle := executed.executionOutput.bundle
            receipts := executed.executionOutput.receipts.flatten
            transactions := transactions
            gasUsed := some payload.block.header.gasUsed
            fees := payload.fees
            previousBal := payload.block.body.blockAccessList
            transactionsOffset := payload.block.body.transactions.length + 1 }

def loadBal (list : BlockAccessList) : Except Failure Bal := do
  let accounts ← list.mapM fun alloyAcc =>
    orPanic "it should not fail here" (X.tryFromAlloy alloyAcc)
  return ⟨ofPairs accounts⟩

def initialBalBuilder (committed : Committed Tx) : Except Failure Bal :=
  match committed.previousBal with
  | some previousBal => loadBal X previousBal
  | none => .ok {}

/-- Without an access list nothing is recorded and no index is set. -/
def initialBalState (committed : Committed Tx) (bal : Option BlockAccessList) :
    Except Failure BalState := do
  let balBuilder ← initialBalBuilder X committed
  match bal with
  | none => return {}
  | some list =>
      let bal ← loadBal X list
      return {
        bal := some bal
        balBuilder := some balBuilder
        balIndex := committed.transactionsOffset }

/-- The block builder over the shared `State`, which `build` runs the
pre-execution changes with. Its environment is derived from the attributes and
is not the one the transactions run in. -/
structure FlashblocksBlockBuilder (Tx : Type) where
  evmEnv : EvmEnv
  executionCtx : OpBlockExecutionCtx
  transactions : List (Recovered Tx)
  receipts : List OpReceipt
  gasUsed : UInt64

def nextBlockAttributes (ctx : OpPayloadBuilderCtx Tx) (extraData : Bytes) :
    OpNextBlockEnvAttributes where
  timestamp := ctx.timestamp
  suggestedFeeRecipient := ctx.attributes.payloadAttributes.suggestedFeeRecipient
  prevRandao := ctx.attributes.payloadAttributes.prevRandao
  gasLimit := ctx.attributes.gasLimit.getD ctx.parent.header.gasLimit
  parentBeaconBlockRoot := ctx.attributes.payloadAttributes.parentBeaconBlockRoot
  extraData := extraData

def nextBlockExtraData (ctx : OpPayloadBuilderCtx Tx) : Except Failure Bytes :=
  if ctx.chainSpec.isHoloceneActiveAtTimestamp ctx.timestamp then
    orError (X.getHoloceneExtraData ctx.attributes
      (ctx.chainSpec.baseFeeParamsAtTimestamp ctx.timestamp))
  else .ok []

def blockBuilder (ctx : OpPayloadBuilderCtx Tx) (committed : Committed Tx) :
    Except Failure (FlashblocksBlockBuilder Tx) := do
  let extraData ← nextBlockExtraData X ctx
  let attributes := nextBlockAttributes ctx extraData
  let evmEnv ← orError (X.nextEvmEnv ctx.parent.header attributes)
  let executionCtx ← orError (X.contextForNextBlock ctx.parent attributes)
  return {
    evmEnv := evmEnv
    executionCtx := executionCtx
    transactions := committed.transactions
    receipts := committed.receipts
    gasUsed := committed.gasUsed.getD 0 }

def FlashblocksBlockBuilder.applyPreExecutionChanges (self : FlashblocksBlockBuilder Tx)
    (state : State Core) : Except Failure (State Core) := do
  let changes ← orError (X.preExecution self.executionCtx self.evmEnv (X.read state))
  return changes.foldl X.commit state

structure ParallelResult (Tx : Type) where
  index : BalIndex
  bundleState : BundleState
  execResult : ExecutionResult
  tx : Recovered Tx
  bal : Option Bal

def parallelState (db : Db) (bundle : BundleState) (balState : BalState) (index : BalIndex) :
    State Core :=
  State.setBalIndex { core := X.buildState db bundle, balState := balState } index

def executeParallel (db : Db) (bundle : BundleState) (balState : BalState) (evmEnv : EvmEnv)
    (indexed : Recovered Tx × BalIndex) : Except Failure (ParallelResult Tx) := do
  let executed ← orError
    (X.transactCommit evmEnv indexed.1 (parallelState X db bundle balState indexed.2))
  return {
    index := indexed.2
    bundleState := X.takeBundle (X.mergeTransitions executed.2.core)
    execResult := executed.1
    tx := indexed.1
    bal := executed.2.balState.balBuilder }

/-- `build_receipt`. The deposit receipt version came with Canyon. -/
def buildReceipt (tx : Tx) (result : ExecutionResult) (cumulativeGasUsed : UInt64)
    (depositNonce : Option UInt64) (chainSpec : OpChainSpec) (timestamp : UInt64) : OpReceipt :=
  let receipt : Receipt := ⟨result.isSuccess, cumulativeGasUsed, result.logs⟩
  match X.txType tx with
  | .deposit => .deposit receipt depositNonce
      (if chainSpec.isCanyonActiveAtTimestamp timestamp then some 1 else none)
  | .legacy => .legacy receipt
  | .eip2930 => .eip2930 receipt
  | .eip1559 => .eip1559 receipt
  | .eip7702 => .eip7702 receipt

structure Merged where
  bundle : BundleState
  receipts : List OpReceipt
  cumulativeGasUsed : UInt64
  fees : U256
  finalBal : Bal := {}

def extendAccountBal (kept new : AccountBal) : AccountBal where
  accountInfo := X.extendAccountInfo kept.accountInfo new.accountInfo
  storage := X.extendStorage kept.storage new.storage

/-- The nonce of a deposit, read through the shared state, or the fee of
another transaction. -/
def nonceOrFee (basefee : UInt64) (state : State Core) (result : ParallelResult Tx) :
    Except Failure (Option UInt64 × U256) :=
  if X.isDeposit result.tx.inner then do
    let account ← orError (X.read (state.setBalIndex result.index) (.account result.tx.signer))
    return (Option.map AccountInfo.nonce account, 0)
  else do
    let minerFee ← orPanic "fee is always valid; execution succeeded"
      (X.effectiveTipPerGas result.tx.inner basefee)
    return (none, BitVec.ofNat 256 minerFee * BitVec.ofNat 256 result.execResult.gasUsed.toNat)

def mergeResult (ctx : OpPayloadBuilderCtx Tx) (basefee : UInt64) (state : State Core)
    (merged : Merged) (result : ParallelResult Tx) : Except Failure Merged := do
  let parallelBal := result.bal.getD {}
  let cumulativeGasUsed := merged.cumulativeGasUsed + result.execResult.gasUsed
  let charged ← nonceOrFee X basefee state result
  let receipt := buildReceipt X result.tx.inner result.execResult cumulativeGasUsed charged.1
    ctx.chainSpec ctx.timestamp
  return {
    bundle := X.extendBundle merged.bundle result.bundleState
    receipts := merged.receipts ++ [receipt]
    cumulativeGasUsed := cumulativeGasUsed
    fees := merged.fees + charged.2
    finalBal := ⟨mergeInto (extendAccountBal X) merged.finalBal.accounts parallelBal.accounts⟩ }

/-- The shared `State` after the pre-execution changes, which run only when no
payload is committed, and the index of the first transaction. -/
def prepareState (ctx : OpPayloadBuilderCtx Tx) (committed : Committed Tx) (state : State Core) :
    Except Failure (State Core × BalIndex) := do
  let builder ← blockBuilder X ctx committed
  if committed.transactionsOffset = 0 then
    let state ← builder.applyPreExecutionChanges X state
    return (state, committed.transactionsOffset + 1)
  else
    return (state, committed.transactionsOffset)

structure Setup (Tx Core : Type) where
  committed : Committed Tx
  state : State Core
  transactions : List (Recovered Tx × BalIndex)

def setUp (db : Db) (ctx : OpPayloadBuilderCtx Tx) (committedPayload : Option (OpBuiltPayload Tx))
    (bal : Option BlockAccessList) : Except Failure (Setup Tx Core) := do
  let committed ← loadCommitted X committedPayload
  let balState ← initialBalState X committed bal
  let prepared ← prepareState X ctx committed
    { core := X.buildState db committed.bundle, balState := balState }
  let attributesTxs ← ctx.attributes.transactions.mapM fun tx =>
    recover X tx.value fun shown => "tx recovery failed for " ++ shown
  return {
    committed := committed
    state := prepared.1
    transactions := attributesTxs.zipIdx prepared.2 }

def Committed.merged (committed : Committed Tx) : Merged where
  bundle := committed.bundle
  receipts := committed.receipts
  cumulativeGasUsed := committed.gasUsed.getD 0
  fees := committed.fees

structure Execution (Tx : Type) where
  transactions : List (Recovered Tx)
  merged : Merged

def execute (db : Db) (ctx : OpPayloadBuilderCtx Tx) (committedPayload : Option (OpBuiltPayload Tx))
    (bal : Option BlockAccessList) (evmEnv : EvmEnv) : Except Failure (Execution Tx) := do
  let setup ← setUp X db ctx committedPayload bal
  let parallelResults ← setup.transactions.mapM
    (executeParallel X db setup.committed.bundle setup.state.balState evmEnv)
  let merged ← (parallelResults.insertionSort fun a b => a.index ≤ b.index).foldlM
    (mergeResult X ctx evmEnv.blockEnv.basefee setup.state) setup.committed.merged
  return {
    transactions := setup.committed.transactions ++ setup.transactions.map Prod.fst
    merged := merged }

end WorldChain.Builder.Build
