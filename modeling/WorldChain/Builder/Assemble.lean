import WorldChain.Builder.Build

/-! The second half of `FlashblockBuilder::build`: roots, header and payload. -/
namespace WorldChain.Builder.Assemble
open Wire.Primitives Deps.Revm Deps.Reth Deps.Calls Step.Reverts Build

variable {Tx Db Core : Type} (X : Crates Tx Db Core)

/-- From Isthmus on the withdrawals root is the storage root of the message
passer, and the requests are always empty. -/
def withdrawalsAndRequests (chainSpec : OpChainSpec) (timestamp : UInt64) (bundle : BundleState)
    (stateProvider : Db) : Except Failure (Option B256 × Option B256) :=
  if chainSpec.isIsthmusActiveAtTimestamp timestamp then do
    let root ← orError (X.withdrawalsRoot bundle stateProvider)
    return (some root, some X.emptyRequestsHash)
  else if chainSpec.isCanyonActiveAtTimestamp timestamp then
    return (some X.emptyWithdrawals, none)
  else
    return (none, none)

/-- Excess blob gas and blob gas used; Jovian stores a data availability
footprint in the latter. -/
def blobGas (chainSpec : OpChainSpec) (timestamp daFootprint : UInt64) :
    Option UInt64 × Option UInt64 :=
  if chainSpec.isJovianActiveAtTimestamp timestamp then (some 0, some daFootprint)
  else if chainSpec.isEcotoneActiveAtTimestamp timestamp then (some 0, some 0)
  else (none, none)

def receiptsBloom (receipts : List OpReceipt) : Bloom :=
  X.logsBloom (receipts.flatMap fun receipt => receipt.inner.logs)

/-- The payload around a header: an empty list of withdrawals, one block of
receipts. -/
def sealPayload (id : PayloadId) (header : Header) (transactions : List (Recovered Tx))
    (blockAccessList : Option BlockAccessList) (bundle : BundleState) (receipts : List OpReceipt)
    (fees : U256) (firstBlock : UInt64) : OpBuiltPayload Tx :=
  let block : Block Tx := {
    header := header
    body := {
      transactions := transactions.map (·.inner)
      withdrawals := some []
      blockAccessList := blockAccessList } }
  { id := id
    block := block
    fees := fees
    executedBlock := some {
      recoveredBlock := ⟨block, transactions.map (·.signer)⟩
      executionOutput := ⟨bundle, [receipts], firstBlock⟩ } }

def header (ctx : OpPayloadBuilderCtx Tx) (evmEnv : EvmEnv) (extraData : Bytes)
    (executed : Execution Tx) (withdrawalsRoot requestsHash : Option B256) (stateRoot : B256)
    (alloyBal : BlockAccessList) : Header :=
  let merged := executed.merged
  let blob := blobGas ctx.chainSpec ctx.timestamp 0
  { parentHash := ctx.parent.hash
    ommersHash := X.emptyOmmerRootHash
    beneficiary := evmEnv.blockEnv.beneficiary
    stateRoot := stateRoot
    transactionsRoot := X.calculateTransactionRoot executed.transactions
    receiptsRoot := X.calculateReceiptRoot merged.receipts ctx.chainSpec ctx.timestamp
    withdrawalsRoot := withdrawalsRoot
    logsBloom := receiptsBloom X merged.receipts
    timestamp := ctx.timestamp
    mixHash := evmEnv.blockEnv.prevrandao.getD 0
    nonce := X.beaconNonce
    baseFeePerGas := some evmEnv.blockEnv.basefee
    number := ctx.parent.header.number + 1
    gasLimit := ctx.attributes.gasLimit.getD 0
    difficulty := evmEnv.blockEnv.difficulty
    gasUsed := merged.cumulativeGasUsed
    extraData := extraData
    parentBeaconBlockRoot := ctx.attributes.payloadAttributes.parentBeaconBlockRoot
    blobGasUsed := blob.2
    excessBlobGas := blob.1
    requestsHash := requestsHash
    blockAccessListHash := some (X.computeBlockAccessListHash alloyBal) }

def assemble (stateProvider : Db) (ctx : OpPayloadBuilderCtx Tx) (evmEnv : EvmEnv)
    (extraData : Bytes) (executed : Execution Tx) : Except Failure (OpBuiltPayload Tx) := do
  let merged := executed.merged
  let bundle := flattenBundle merged.bundle
  let (withdrawalsRoot, requestsHash) ←
    withdrawalsAndRequests X ctx.chainSpec ctx.timestamp bundle stateProvider
  let stateRoot ← orError (X.stateRoot stateProvider bundle)
  let alloyBal := X.intoAlloyBal merged.finalBal
  return sealPayload ctx.payloadId
    (header X ctx evmEnv extraData executed withdrawalsRoot requestsHash stateRoot alloyBal)
    executed.transactions (some alloyBal) bundle merged.receipts merged.fees
    (ctx.parent.header.number + 1)

def build (db stateProvider : Db) (ctx : OpPayloadBuilderCtx Tx)
    (committedPayload : Option (OpBuiltPayload Tx)) (bal : Option BlockAccessList)
    (evmEnv : EvmEnv) (extraData : Bytes) :
    Except Failure (BuildOutcomeKind (OpBuiltPayload Tx)) := do
  let executed ← execute X db ctx committedPayload bal evmEnv
  let payload ← assemble X stateProvider ctx evmEnv extraData executed
  return if ctx.attributes.noTxPool then .freeze payload else .better payload

end WorldChain.Builder.Assemble
