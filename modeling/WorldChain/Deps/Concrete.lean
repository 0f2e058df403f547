import WorldChain.Deps.Calls

/-! One concrete choice for the calls: an EVM whose transactions check and
raise the nonce of their sender and store words, without fees. Hashes are
numbers. The results about the program hold of every choice. -/
namespace WorldChain.Deps.Concrete
open Library.Overlay Library.Upsert Wire.Primitives Revm Reth Calls

structure SampleTx where
  signer : Address
  nonce : UInt64 := 0
  kind : OpTxType := .eip1559
  /-- Contract, slot and value of each store. -/
  stores : List (Address × U256 × U256) := []
  deriving DecidableEq

structure SampleDb where
  accounts : Map Address AccountInfo := ∅
  slots : Map (Address × U256) U256 := ∅

def SampleDb.query (self : SampleDb) : Reader
  | .account address => .ok (self.accounts.lookup address)
  | .storage address slot => .ok ((self.slots.lookup (address, slot)).getD 0)

structure SampleCore where
  database : SampleDb
  bundle : BundleState
  pending : List EvmState := []

def StateKey.address : StateKey → Address
  | .account address | .storage address _ => address

def before {T : Type} (writes : BalWrites T) (index : BalIndex) : Option T :=
  (writes.filter fun write => write.1 < index).getLast?.map Prod.snd

def balValue (entry : AccountBal) (index : BalIndex) : (k : StateKey) → k.Value → k.Value
  | .storage _ slot, value =>
      ((entry.storage.storage.lookup slot).bind (before · index)).getD value
  | .account _, info =>
      match before entry.accountInfo.nonce index, before entry.accountInfo.balance index with
      | none, none => info
      | nonce, balance =>
          let old := info.getD {}
          some { old with nonce := nonce.getD old.nonce, balance := balance.getD old.balance }

/-- Whether an account's entry has what is looked up. -/
def listed (entry : AccountBal) : StateKey → Bool
  | .account _ => true
  | .storage _ slot => (entry.storage.storage.lookup slot).isSome

def readSample (core : SampleCore) (bal : Option Bal) (index : BalIndex) : Reader := fun k =>
  let value := through (overlays core.bundle.state (core.pending.map EvmState.writes))
    core.database.query k
  match bal with
  | none => value
  | some bal =>
      match bal.accounts.lookup (StateKey.address k) with
      | none => .error "account not found in BAL"
      | some entry =>
          if listed entry k then value.map (balValue entry index k)
          else .error "slot not found in BAL"

def writesOfStores (stores : List (Address × U256 × U256)) : Changes StateKey.Value
  | .account _ => none
  | .storage address slot =>
      (stores.reverse.find? fun store => store.1 = address ∧ store.2.1 = slot).map (·.2.2)

def writesOfSender (signer : Address) (info : AccountInfo) : Changes StateKey.Value
  | .account address => if address = signer then some (some info) else none
  | .storage _ _ => none

def transactSample (tx : Recovered SampleTx) (read : Reader) :
    Except String (ExecutionResult × EvmState) :=
  match read (.account tx.signer) with
  | .error e => .error e
  | .ok account =>
      let info : AccountInfo := Option.getD account {}
      if tx.inner.kind ≠ .deposit ∧ info.nonce ≠ tx.inner.nonce then .error "nonce mismatch"
      else
        let raised := { info with nonce := info.nonce + 1 }
        .ok (⟨true, 21000, []⟩, {
          writes := overlay (writesOfSender tx.signer raised) (writesOfStores tx.inner.stores)
          accesses := .nonce tx.signer raised.nonce ::
            tx.inner.stores.map fun store => .storage store.1 store.2.1 store.2.2 })

def beaconRoots : Address := 0x4788

def storesRoot (root : B256) : EvmState where
  writes := writesOfStores [(beaconRoots, 0, root)]
  accesses := [.storage beaconRoots 0 root]

/-- The call that stores the beacon root, which Ecotone asks for. -/
def preExecutionSample (executionCtx : OpBlockExecutionCtx) (read : Reader) :
    Except String (List EvmState) :=
  match executionCtx.parentBeaconBlockRoot with
  | none => .error "missing parent beacon block root"
  | some root => do
      let _ ← read (.account beaconRoots)
      let _ ← read (.storage beaconRoots 0)
      return [storesRoot root]

def Access.address : Access → Address
  | .account address | .slot address _ | .nonce address _ | .balance address _ | .code address _
  | .storage address _ _ => address

def addAccess (index : BalIndex) (access : Access) (entry : AccountBal) : AccountBal :=
  match access with
  | .account _ => entry
  | .slot _ slot => { entry with storage := ⟨upsert entry.storage.storage slot id []⟩ }
  | .nonce _ value => { entry with accountInfo :=
      { entry.accountInfo with nonce := entry.accountInfo.nonce ++ [(index, value)] } }
  | .balance _ value => { entry with accountInfo :=
      { entry.accountInfo with balance := entry.accountInfo.balance ++ [(index, value)] } }
  | .code _ value => { entry with accountInfo :=
      { entry.accountInfo with code := entry.accountInfo.code ++ [(index, value)] } }
  | .storage _ slot value => { entry with storage :=
      ⟨upsert entry.storage.storage slot (· ++ [(index, value)]) [(index, value)]⟩ }

def recordSample (bal : Bal) (index : BalIndex) (changes : EvmState) : Bal :=
  ⟨changes.accesses.foldl (fun accounts access =>
    upsert accounts (Access.address access) (addAccess index access)
      (addAccess index access {})) bal.accounts⟩

def fromAlloySample (acc : AccountChanges) : Address × AccountBal :=
  (acc.address, {
    accountInfo := {
      nonce := acc.nonceChanges.map fun change => (change.blockAccessIndex.toNat, change.newNonce)
      balance := acc.balanceChanges.map fun change =>
        (change.blockAccessIndex.toNat, change.postBalance)
      code := acc.codeChanges.map fun change => (change.blockAccessIndex.toNat, change.newCode) }
    storage := ⟨ofPairs (acc.storageChanges.map (fun changes =>
        (changes.slot, changes.changes.map fun change =>
          (change.blockAccessIndex.toNat, change.newValue))) ++
      acc.storageReads.map fun slot => (slot, []))⟩ })

def intoAlloySample (bal : Bal) : BlockAccessList :=
  bal.accounts.entries.map fun account =>
    let slots := account.2.storage.storage.entries
    { address := account.1
      storageChanges := (slots.filter fun slot => ¬ slot.2.isEmpty).map fun slot =>
        ⟨slot.1, slot.2.map fun write => ⟨.ofNat write.1, write.2⟩⟩
      storageReads := (slots.filter fun slot => slot.2.isEmpty).map fun slot => slot.1
      balanceChanges := account.2.accountInfo.balance.map fun write => ⟨.ofNat write.1, write.2⟩
      nonceChanges := account.2.accountInfo.nonce.map fun write => ⟨.ofNat write.1, write.2⟩
      codeChanges := account.2.accountInfo.code.map fun write => ⟨.ofNat write.1, write.2⟩ }

def sample : Crates SampleTx SampleDb SampleCore where
  buildState database bundle := { database, bundle }
  readState := readSample
  commitState core changes := { core with pending := core.pending ++ [changes] }
  recordAccesses := recordSample
  mergeTransitions core := { core with
    bundle := { core.bundle with
      state := overlays core.bundle.state (core.pending.map EvmState.writes) }
    pending := [] }
  takeBundle core := core.bundle
  extendBundle bundle other :=
    ⟨overlay bundle.state other.state, bundle.reverts ++ other.reverts⟩
  extendAccountInfo kept new :=
    ⟨kept.nonce ++ new.nonce, kept.balance ++ new.balance, kept.code ++ new.code⟩
  extendStorage kept new := ⟨mergeInto (· ++ ·) kept.storage new.storage⟩
  tryFromAlloy acc := some (fromAlloySample acc)
  intoAlloyBal := intoAlloySample
  transact _ := transactSample
  transactReads _ tx _ := [.account tx.signer]
  preExecution executionCtx _ := preExecutionSample executionCtx
  preExecutionReads _ _ _ := [.account beaconRoots, .storage beaconRoots 0]
  nextEvmEnv parent attributes := .ok { blockEnv := {
    number := .ofNat 256 (parent.number + 1).toNat
    beneficiary := attributes.suggestedFeeRecipient
    timestamp := .ofNat 256 attributes.timestamp.toNat
    gasLimit := attributes.gasLimit
    basefee := parent.baseFeePerGas.getD 0
    prevrandao := some attributes.prevRandao } }
  contextForNextBlock parent attributes :=
    .ok ⟨parent.hash, attributes.parentBeaconBlockRoot, attributes.extraData⟩
  getHoloceneExtraData _ _ := .ok (.replicate 9 0)
  encodeHoloceneExtraData _ _ := .ok (.replicate 9 0)
  decode2718Exact
    | [signer, nonce] => .ok { signer := .ofNat 160 signer.toNat, nonce := nonce.toUInt64 }
    | _ => .error "unexpected length"
  encoded2718 tx := [.ofNat tx.signer.toNat, tx.nonce.toUInt8]
  tryIntoRecovered tx := .ok ⟨tx, tx.signer⟩
  txType := SampleTx.kind
  effectiveTipPerGas _ _ := some 0
  calculateTransactionRoot transactions := .ofNat 256 transactions.length
  calculateReceiptRoot receipts _ _ := .ofNat 256 receipts.length
  logsBloom _ := .replicate 8 0
  withdrawalsRoot _ _ := .ok 0
  stateRoot _ _ := .ok 0
  computeBlockAccessListHash list := .ofNat 256 list.length
  hashSlow header := header.parentHash + .ofNat 256 header.gasUsed.toNat + 1
  emptyOmmerRootHash := 0
  emptyRequestsHash := 0
  emptyWithdrawals := 0
  beaconNonce := 0

/-! Small inputs: a parent block at height 1 and a chain with Ecotone and no later upgrade. -/

def sampleChainSpec : OpChainSpec where
  isCanyonActiveAtTimestamp _ := true
  isEcotoneActiveAtTimestamp _ := true
  isHoloceneActiveAtTimestamp _ := false
  isIsthmusActiveAtTimestamp _ := false
  isJovianActiveAtTimestamp _ := false
  baseFeeParamsAtTimestamp _ := ⟨250, 6⟩

def sampleHeader : Header where
  parentHash := 0
  ommersHash := 0
  beneficiary := 0
  stateRoot := 0
  transactionsRoot := 0
  receiptsRoot := 0
  logsBloom := .replicate 8 0
  difficulty := 0
  number := 1
  gasLimit := 30000000
  gasUsed := 0
  timestamp := 10
  extraData := []
  mixHash := 0
  nonce := 0
  baseFeePerGas := some 0
  withdrawalsRoot := none
  blobGasUsed := none
  excessBlobGas := none
  parentBeaconBlockRoot := none
  requestsHash := none
  blockAccessListHash := none

def sampleCtx (transactions : List SampleTx) : OpPayloadBuilderCtx SampleTx where
  chainSpec := sampleChainSpec
  config := {
    parentHeader := ⟨sampleHeader, 7⟩
    attributes := {
      payloadAttributes := {
        id := 1
        parent := 7
        timestamp := 12
        suggestedFeeRecipient := 0
        prevRandao := 0
        withdrawals := []
        parentBeaconBlockRoot := some 9 }
      noTxPool := true
      transactions := transactions.map fun tx => ⟨[], tx⟩
      gasLimit := none
      eip1559Params := none
      minBaseFee := none } }
  bestPayload := none

def rootEntry : AccountChanges :=
  { address := beaconRoots, storageChanges := [⟨0, [⟨0, 9⟩]⟩] }

def samplePayload (bundle : Changes StateKey.Value) (list : BlockAccessList) :
    OpBuiltPayload SampleTx :=
  let block : Block SampleTx := {
    header := { sampleHeader with number := 2, gasUsed := 21000 }
    body := {
      transactions := [{ signer := 1 }]
      withdrawals := some []
      blockAccessList := some list } }
  { id := 1
    block := block
    fees := 0
    executedBlock := some {
      recoveredBlock := ⟨block, [1]⟩
      executionOutput := ⟨{ state := bundle }, [[.eip1559 ⟨true, 21000, []⟩]], 2⟩ } }

end WorldChain.Deps.Concrete
