import WorldChain.Deps.Revm

/-! The block, payload and context types of alloy and reth, with the fields the
program reads or sets. `Tx` is the transaction envelope. -/
namespace WorldChain.Deps.Reth
open Library.Overlay Wire.Primitives Revm

inductive OpTxType
  | legacy
  | eip2930
  | eip1559
  | eip7702
  | deposit
  deriving DecidableEq

structure Receipt where
  status : Bool
  cumulativeGasUsed : UInt64
  logs : List Log
  deriving DecidableEq

inductive OpReceipt
  | legacy (receipt : Receipt)
  | eip2930 (receipt : Receipt)
  | eip1559 (receipt : Receipt)
  | eip7702 (receipt : Receipt)
  | deposit (inner : Receipt) (depositNonce : Option UInt64) (depositReceiptVersion : Option UInt64)
  deriving DecidableEq

def OpReceipt.inner : OpReceipt → Receipt
  | .legacy receipt | .eip2930 receipt | .eip1559 receipt | .eip7702 receipt => receipt
  | .deposit receipt _ _ => receipt

structure Header where
  parentHash : B256
  ommersHash : B256
  beneficiary : Address
  stateRoot : B256
  transactionsRoot : B256
  receiptsRoot : B256
  logsBloom : Bloom
  difficulty : U256
  number : UInt64
  gasLimit : UInt64
  gasUsed : UInt64
  timestamp : UInt64
  extraData : Bytes
  mixHash : B256
  nonce : B64
  baseFeePerGas : Option UInt64
  withdrawalsRoot : Option B256
  blobGasUsed : Option UInt64
  excessBlobGas : Option UInt64
  parentBeaconBlockRoot : Option B256
  requestsHash : Option B256
  blockAccessListHash : Option B256
  deriving DecidableEq

structure SealedHeader where
  header : Header
  hash : B256
  deriving DecidableEq

structure BlockBody (Tx : Type) where
  transactions : List Tx
  ommers : List Header := []
  withdrawals : Option (List Withdrawal)
  blockAccessList : Option BlockAccessList
  deriving DecidableEq

structure Block (Tx : Type) where
  header : Header
  body : BlockBody Tx
  deriving DecidableEq

structure RecoveredBlock (Tx : Type) where
  block : Block Tx
  senders : List Address
  deriving DecidableEq

/-- `receipts` has one list for each block. -/
structure ExecutionOutcome where
  bundle : BundleState
  receipts : List (List OpReceipt)
  firstBlock : UInt64

structure BuiltPayloadExecutedBlock (Tx : Type) where
  recoveredBlock : RecoveredBlock Tx
  executionOutput : ExecutionOutcome

structure OpBuiltPayload (Tx : Type) where
  id : PayloadId
  block : Block Tx
  fees : U256
  executedBlock : Option (BuiltPayloadExecutedBlock Tx)

inductive BuildOutcomeKind (P : Type)
  | better (payload : P)
  | aborted (fees : U256)
  | cancelled
  | freeze (payload : P)

def BuildOutcomeKind.payload {P : Type} : BuildOutcomeKind P → Option P
  | .better payload | .freeze payload => some payload
  | .aborted _ | .cancelled => none

/-- The state a payload leaves, as changes to that of its parent block. -/
def OpBuiltPayload.postState {Tx : Type} (self : OpBuiltPayload Tx) : Changes StateKey.Value :=
  (self.executedBlock.map fun executed => executed.executionOutput.bundle.state).getD blank

def OpBuiltPayload.receipts {Tx : Type} (self : OpBuiltPayload Tx) : List OpReceipt :=
  (self.executedBlock.map fun executed => executed.executionOutput.receipts.flatten).getD []

structure BaseFeeParams where
  maxChangeDenominator : Nat
  elasticityMultiplier : Nat
  deriving DecidableEq

structure OpChainSpec where
  isCanyonActiveAtTimestamp : UInt64 → Bool
  isEcotoneActiveAtTimestamp : UInt64 → Bool
  isHoloceneActiveAtTimestamp : UInt64 → Bool
  isIsthmusActiveAtTimestamp : UInt64 → Bool
  isJovianActiveAtTimestamp : UInt64 → Bool
  baseFeeParamsAtTimestamp : UInt64 → BaseFeeParams

structure OpNextBlockEnvAttributes where
  timestamp : UInt64
  suggestedFeeRecipient : Address
  prevRandao : B256
  gasLimit : UInt64
  parentBeaconBlockRoot : Option B256
  extraData : Bytes
  deriving DecidableEq

structure OpBlockExecutionCtx where
  parentHash : B256
  parentBeaconBlockRoot : Option B256
  extraData : Bytes
  deriving DecidableEq

structure EthPayloadBuilderAttributes where
  id : PayloadId
  parent : B256
  timestamp : UInt64
  suggestedFeeRecipient : Address
  prevRandao : B256
  withdrawals : List Withdrawal
  parentBeaconBlockRoot : Option B256
  deriving DecidableEq

structure WithEncoded (Tx : Type) where
  encodedBytes : Bytes
  value : Tx
  deriving DecidableEq

structure OpPayloadBuilderAttributes (Tx : Type) where
  payloadAttributes : EthPayloadBuilderAttributes
  noTxPool : Bool
  transactions : List (WithEncoded Tx)
  gasLimit : Option UInt64
  eip1559Params : Option B64
  minBaseFee : Option UInt64
  deriving DecidableEq

structure PayloadConfig (Tx : Type) where
  parentHeader : SealedHeader
  attributes : OpPayloadBuilderAttributes Tx

/-- The cancellation handle and the gas ceiling of the context are not read. -/
structure OpPayloadBuilderCtx (Tx : Type) where
  chainSpec : OpChainSpec
  config : PayloadConfig Tx
  bestPayload : Option (OpBuiltPayload Tx)

variable {Tx : Type}

def OpPayloadBuilderCtx.attributes (self : OpPayloadBuilderCtx Tx) :
    OpPayloadBuilderAttributes Tx := self.config.attributes

def OpPayloadBuilderCtx.parent (self : OpPayloadBuilderCtx Tx) : SealedHeader :=
  self.config.parentHeader

def OpPayloadBuilderCtx.payloadId (self : OpPayloadBuilderCtx Tx) : PayloadId :=
  self.attributes.payloadAttributes.id

def OpPayloadBuilderCtx.timestamp (self : OpPayloadBuilderCtx Tx) : UInt64 :=
  self.attributes.payloadAttributes.timestamp

/-- `Err` with its message, or a panic that unwinds out of the call. -/
inductive Failure
  | error (message : String)
  | panic (message : String)
  deriving DecidableEq

/-- Pass on the error of a call, as the question mark does. -/
def orError {α : Type} : Except String α → Except Failure α := Except.mapError .error

theorem orError_eq_ok {α : Type} {x : Except String α} {a : α} :
    orError x = .ok a ↔ x = .ok a := by
  cases x <;> simp [orError, Except.mapError]

/-- Panic on an error or on `None`, as `expect` does. -/
def orPanic {α : Type} (message : String) : Option α → Except Failure α
  | some a => .ok a
  | none => .error (.panic message)

theorem orPanic_eq_ok {α : Type} {message : String} {x : Option α} {a : α} :
    orPanic message x = .ok a ↔ x = some a := by
  cases x <;> simp [orPanic]

end WorldChain.Deps.Reth
