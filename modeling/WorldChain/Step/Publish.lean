import WorldChain.Executor.Process

/-! The step that publishes a flashblock. What it asks of a checkpoint and of
the block of the payload job is data here; the pipeline behind it is not part of
the repository. -/
namespace WorldChain.Step.Publish
open Wire.Primitives Deps.Revm Deps.Reth Deps.Calls
open Builder.Build Builder.Assemble Executor.Process Reverts

structure BlockContext (Tx : Type) where
  parent : SealedHeader
  chainSpec : OpChainSpec
  attributes : OpPayloadBuilderAttributes Tx
  evmEnv : EvmEnv
  blockEnv : OpNextBlockEnvAttributes
  baseBundleState : BundleState
  payloadId : PayloadId
  number : UInt64
  timestamp : UInt64
  baseFee : UInt64
  coinbase : Address

structure StepContext (Tx Db : Type) where
  block : BlockContext Tx
  provider : Db
  accountNonce : Address → Except String (Option UInt64)

structure WorldContext (Tx : Type) where
  maybeBuiltPayload : Option (OpBuiltPayload Tx) := none

/-- A checkpoint of a span. `prev` is `basic_ref` of the checkpoint before it. -/
structure Checkpoint (Tx : Type) where
  state : Option BundleState
  transactions : List (Recovered Tx)
  result : Option (List ExecutionResult)
  prev : Option (Address → Except String (Option AccountInfo))

structure Payload (Tx : Type) where
  block : BlockContext Tx
  latestBarrier : Option (WorldContext Tx)
  history : List (Checkpoint Tx)
  historyStaging : List (Checkpoint Tx)
  cumulativeDaFootprint : Option UInt64
  alloyBal : BlockAccessList

structure PublishFlashblock (Tx : Type) where
  p2p : FlashblocksStateExecutor Tx
  blockNumber : UInt64 := 0
  blockBase : Option ExecutionPayloadBaseV1 := none

inductive ControlFlow (Tx : Type)
  | fail (e : Failure)
  /-- The payload goes on, with a barrier of this context when there is one. -/
  | ok (barrier : Option (WorldContext Tx))

variable {Tx Db Core : Type}

def executionPayloadBase (ctx : StepContext Tx Db) : ExecutionPayloadBaseV1 where
  parentBeaconBlockRoot := ctx.block.attributes.payloadAttributes.parentBeaconBlockRoot.getD 0
  parentHash := ctx.block.parent.hash
  feeRecipient := ctx.block.coinbase
  prevRandao := ctx.block.attributes.payloadAttributes.prevRandao
  blockNumber := ctx.block.number
  gasLimit := ctx.block.attributes.gasLimit.getD ctx.block.parent.header.gasLimit
  timestamp := ctx.block.timestamp
  extraData := ctx.block.blockEnv.extraData
  baseFeePerGas := .ofNat 256 ctx.block.baseFee.toNat

def beforeJob (self : PublishFlashblock Tx) (ctx : StepContext Tx Db) : PublishFlashblock Tx :=
  { self with blockBase := some (executionPayloadBase ctx) }

def afterJob (self : PublishFlashblock Tx) : PublishFlashblock Tx :=
  { self with blockNumber := 0, blockBase := none }

/-- The first flashblock takes in the transactions before the prologue's barrier. -/
def unpublishedPayload (self : PublishFlashblock Tx) (payload : Payload Tx) :
    List (Checkpoint Tx) :=
  if self.blockNumber = 0 then payload.history else payload.historyStaging

structure Totals where
  bundle : BundleState
  receipts : List OpReceipt := []
  fees : U256 := 0
  cumulativeGasUsed : UInt64 := 0

/-- The debug build also asserts that a built payload holds exactly one block. -/
def extractPreviousState (debugAssertions : Bool) (payload : Payload Tx) : Except Failure Totals :=
  match payload.latestBarrier with
  | none => .ok { bundle := payload.block.baseBundleState }
  | some barrier =>
      match barrier.maybeBuiltPayload with
      | none => .ok { bundle := payload.block.baseBundleState }
      | some built => do
          let executedBlock ← orPanic "built payload must have execution outcome" built.executedBlock
          if debugAssertions ∧ executedBlock.executionOutput.receipts.length ≠ 1 then
            .error (.panic "assertion left == right failed")
          else
            let receipts ← orPanic "receipts must have at least one block"
              executedBlock.executionOutput.receipts.head?
            return {
              bundle := executedBlock.executionOutput.bundle
              receipts := receipts
              fees := built.fees
              cumulativeGasUsed := built.block.header.gasUsed }

variable (X : Crates Tx Db Core)

/-- A deposit has the nonce of its sender before the checkpoint. -/
def depositNonce (ctx : StepContext Tx Db) (checkpoint : Checkpoint Tx) (tx : Recovered Tx) :
    Except Failure (Option UInt64) :=
  if X.isDeposit tx.inner then
    match checkpoint.prev with
    | some basicRef => do
        let account ← orError (basicRef tx.signer)
        return account.map AccountInfo.nonce
    | none => orError (ctx.accountNonce tx.signer)
  else .ok none

def checkpointReceipt (payload : Payload Tx) (ctx : StepContext Tx Db) (checkpoint : Checkpoint Tx)
    (tx : Recovered Tx) (result : ExecutionResult) (cumulativeGasUsed : UInt64) :
    Except Failure OpReceipt := do
  let nonce ← depositNonce X ctx checkpoint tx
  return buildReceipt X tx.inner result cumulativeGasUsed nonce payload.block.chainSpec
    payload.block.timestamp

def minerFee (baseFee : UInt64) (tx : Recovered Tx) (gasUsed : UInt64) : Except Failure U256 :=
  if X.isDeposit tx.inner then return 0
  else do
    let fee ← orPanic "fee is always valid; execution succeeded"
      (X.effectiveTipPerGas tx.inner baseFee)
    return BitVec.ofNat 256 fee * BitVec.ofNat 256 gasUsed.toNat

def addTransaction (payload : Payload Tx) (ctx : StepContext Tx Db) (checkpoint : Checkpoint Tx)
    (results : List ExecutionResult) (totals : Totals) (indexed : Recovered Tx × Nat) :
    Except Failure Totals := do
  let result ← orPanic "index out of bounds" results[indexed.2]?
  let cumulativeGasUsed := totals.cumulativeGasUsed + result.gasUsed
  let fee ← minerFee X payload.block.baseFee indexed.1 result.gasUsed
  let receipt ← checkpointReceipt X payload ctx checkpoint indexed.1 result cumulativeGasUsed
  return { totals with
    receipts := totals.receipts ++ [receipt]
    fees := totals.fees + fee
    cumulativeGasUsed := cumulativeGasUsed }

/-- A checkpoint without a state is passed over, one without results has no receipts. -/
def addCheckpoint (payload : Payload Tx) (ctx : StepContext Tx Db) (totals : Totals)
    (checkpoint : Checkpoint Tx) : Except Failure Totals :=
  match checkpoint.state with
  | none => .ok totals
  | some state =>
      let totals := { totals with bundle := X.extendBundle totals.bundle state }
      match checkpoint.result with
      | none => .ok totals
      | some results =>
          checkpoint.transactions.zipIdx.foldlM (addTransaction X payload ctx checkpoint results)
            totals

def saturatingTo (value : U256) : UInt64 := .ofNat (min value.toNat (UInt64.size - 1))

def header (payload : Payload Tx) (totals : Totals) (txs : List (Recovered Tx))
    (withdrawalsRoot requestsHash : Option B256) (stateRoot : B256) : Header :=
  let block := payload.block
  let blob := blobGas block.chainSpec block.timestamp (payload.cumulativeDaFootprint.getD 0)
  { parentHash := block.parent.hash
    ommersHash := X.emptyOmmerRootHash
    beneficiary := block.evmEnv.blockEnv.beneficiary
    stateRoot := stateRoot
    transactionsRoot := X.calculateTransactionRoot txs
    receiptsRoot := X.calculateReceiptRoot totals.receipts block.chainSpec block.timestamp
    withdrawalsRoot := withdrawalsRoot
    logsBloom := receiptsBloom X totals.receipts
    timestamp := block.timestamp
    mixHash := block.evmEnv.blockEnv.prevrandao.getD 0
    nonce := X.beaconNonce
    baseFeePerGas := some block.baseFee
    number := saturatingTo block.evmEnv.blockEnv.number
    gasLimit := block.evmEnv.blockEnv.gasLimit
    difficulty := block.evmEnv.blockEnv.difficulty
    gasUsed := totals.cumulativeGasUsed
    extraData := block.blockEnv.extraData
    parentBeaconBlockRoot := block.blockEnv.parentBeaconBlockRoot
    blobGasUsed := blob.2
    excessBlobGas := blob.1
    requestsHash := requestsHash
    blockAccessListHash := some (X.computeBlockAccessListHash payload.alloyBal) }

def assembleBlock (payload : Payload Tx) (ctx : StepContext Tx Db) (totals : Totals) :
    Except Failure (OpBuiltPayload Tx) := do
  let block := payload.block
  let txs := payload.history.flatMap (·.transactions)
  let bundle := flattenBundle totals.bundle
  let (withdrawalsRoot, requestsHash) ←
    withdrawalsAndRequests X block.chainSpec block.timestamp bundle ctx.provider
  let stateRoot ← orError (X.stateRoot ctx.provider bundle)
  return sealPayload block.payloadId
    (header X payload totals txs withdrawalsRoot requestsHash stateRoot) txs
    (some payload.alloyBal) bundle totals.receipts totals.fees block.number

def buildOpBuiltPayload (debugAssertions : Bool) (self : PublishFlashblock Tx)
    (payload : Payload Tx) (ctx : StepContext Tx Db) : Except Failure (OpBuiltPayload Tx) := do
  let previous ← extractPreviousState debugAssertions payload
  let totals ← (unpublishedPayload self payload).foldlM (addCheckpoint X payload ctx) previous
  assembleBlock X payload ctx totals

/-- The flashblock of a built payload; `now` is the time of publication. -/
def flashblockOf (self : PublishFlashblock Tx) (payload : Payload Tx) (ctx : StepContext Tx Db)
    (now : Int) (builtPayload : OpBuiltPayload Tx) : FlashblocksPayload :=
  let header := builtPayload.block.header
  { payloadId := ctx.block.payloadId
    index := self.blockNumber
    diff := {
      stateRoot := header.stateRoot
      receiptsRoot := header.receiptsRoot
      logsBloom := header.logsBloom
      gasUsed := header.gasUsed
      blockHash := X.blockHash builtPayload.block
      transactions := (unpublishedPayload self payload).flatMap fun checkpoint =>
        checkpoint.transactions.map fun tx => X.encoded2718 tx.inner
      withdrawals := []
      withdrawalsRoot := header.withdrawalsRoot.getD 0
      blockAccessList := builtPayload.block.body.blockAccessList }
    metadata := { fees := builtPayload.fees, flashblockTimestamp := some now }
    base := self.blockBase }

structure Stepped (Tx : Type) where
  self : PublishFlashblock Tx
  flow : ControlFlow Tx
  events : List (Event Tx)

/-- The number goes up before the flashblock is sent, whether or not that succeeds. -/
def step (debugAssertions : Bool) (self : PublishFlashblock Tx) (payload : Payload Tx)
    (ctx : StepContext Tx Db) (now : Int) : Stepped Tx :=
  match buildOpBuiltPayload X debugAssertions self payload ctx with
  | .error e => ⟨self, .fail e, []⟩
  | .ok builtPayload =>
      let done := publishBuiltPayload self.p2p (flashblockOf X self payload ctx now builtPayload)
        builtPayload
      let next := { self with p2p := done.executor, blockNumber := self.blockNumber + 1 }
      match done.result with
      | .error _ => ⟨next, .ok none, done.events⟩
      | .ok _ => ⟨next, .ok (some ⟨some builtPayload⟩), done.events⟩

end WorldChain.Step.Publish
