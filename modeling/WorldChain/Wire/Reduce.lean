import WorldChain.Deps.Calls
import WorldChain.Library.Fallible
import WorldChain.Wire.Collection

/-! A collection of flashblocks back to a block: all of them are reduced to one,
which is then converted. -/
namespace WorldChain.Wire.Reduce
open Library.Fallible Wire.Primitives Wire.Collection Deps.Revm Deps.Reth Deps.Calls

/-- What the loop of `reduce` takes over from the next flashblock; the access
list stays that of the first. -/
def merge (acc next : FlashblocksPayload) : FlashblocksPayload :=
  { acc with
    base := if acc.base.isNone ∧ next.base.isSome then next.base else acc.base
    index := next.index
    metadata := { acc.metadata with
      fees := next.metadata.fees
      flashblockTimestamp := next.metadata.flashblockTimestamp }
    diff := { acc.diff with
      gasUsed := next.diff.gasUsed
      transactions := acc.diff.transactions ++ next.diff.transactions
      withdrawals := acc.diff.withdrawals ++ next.diff.withdrawals
      stateRoot := next.diff.stateRoot
      receiptsRoot := next.diff.receiptsRoot
      logsBloom := next.diff.logsBloom
      withdrawalsRoot := next.diff.withdrawalsRoot
      blockHash := next.diff.blockHash } }

def mergeNext (debugAssertions : Bool) (acc : FlashblocksPayload) (next : Flashblock) :
    Except Failure FlashblocksPayload :=
  if debugAssertions ∧ acc.payloadId ≠ next.payloadId then
    .error (.panic "assertion left == right failed: all flashblocks should have the same payload_id")
  else .ok (merge acc next.flashblock)

def reduce (debugAssertions : Bool) : Raw → Except Failure (Option Flashblock)
  | [] => .ok none
  | first :: rest => do
      let acc ← rest.foldlM (mergeNext debugAssertions) first.flashblock
      return some ⟨acc⟩

/-- The calls into alloy that only the conversion makes. -/
structure Conversions (Tx : Type) where
  /-- `ordered_trie_root_with_encoder` of items that are their own encodings. -/
  orderedTrieRoot : List Bytes → B256
  decode2718 : Bytes → Except String Tx
  recoverSigner : Tx → Except String Address

def toU64 (value : U256) : Except Failure UInt64 :=
  if value.toNat < UInt64.size then .ok (.ofNat value.toNat)
  else .error (.panic "Uint conversion error")

variable {Tx Db Core : Type} (X : Crates Tx Db Core) (W : Conversions Tx)

def headerOf (base : ExecutionPayloadBaseV1) (diff : ExecutionPayloadFlashblockDeltaV1)
    (baseFeePerGas : UInt64) : Header where
  parentBeaconBlockRoot := none
  stateRoot := diff.stateRoot
  receiptsRoot := diff.receiptsRoot
  logsBloom := diff.logsBloom
  withdrawalsRoot := some diff.withdrawalsRoot
  parentHash := base.parentHash
  baseFeePerGas := some baseFeePerGas
  beneficiary := base.feeRecipient
  transactionsRoot := W.orderedTrieRoot diff.transactions
  ommersHash := X.emptyOmmerRootHash
  blobGasUsed := some 0
  difficulty := 0
  number := base.blockNumber
  gasLimit := base.gasLimit
  gasUsed := diff.gasUsed
  timestamp := base.timestamp
  extraData := base.extraData
  mixHash := base.prevRandao
  nonce := X.beaconNonce
  requestsHash := none
  excessBlobGas := some 0
  blockAccessListHash := diff.blockAccessList.map X.computeBlockAccessListHash

def bodyOf (diff : ExecutionPayloadFlashblockDeltaV1) (transactions : List Tx) : BlockBody Tx where
  transactions := transactions
  withdrawals := some diff.withdrawals
  blockAccessList := diff.blockAccessList

/-- `TryFrom<Flashblock>` for a recovered block. -/
def blockOfFlashblock (value : Flashblock) : Except Failure (RecoveredBlock Tx) :=
  match value.base with
  | none => .error (.error "Flashblock is missing base payload")
  | some base => do
      let diff := value.diff
      let baseFeePerGas ← toU64 base.baseFeePerGas
      let transactions ← (diff.transactions.mapM W.decode2718).mapError fun e =>
        .error ("Failed to decode transaction: " ++ e)
      let senders ← (transactions.mapM W.recoverSigner).mapError fun e =>
        .error ("Failed to recover block: " ++ e)
      return ⟨⟨headerOf X W base diff baseFeePerGas, bodyOf diff transactions⟩, senders⟩

/-- `TryFrom<Flashblocks>` for a recovered block. -/
def blockOfFlashblocks (debugAssertions : Bool) (value : Flashblocks) :
    Except Failure (RecoveredBlock Tx) := do
  match ← reduce debugAssertions value.toList with
  | none => .error (.error "No flashblocks to reduce")
  | some reduced => blockOfFlashblock X W reduced

/-! What the reduction comes to. -/

def merged (first : FlashblocksPayload) (rest : List FlashblocksPayload) : FlashblocksPayload :=
  let last := rest.getLastD first
  { last with
    payloadId := first.payloadId
    base := first.base
    diff := { last.diff with
      transactions := (first :: rest).flatMap fun payload => payload.diff.transactions
      withdrawals := (first :: rest).flatMap fun payload => payload.diff.withdrawals
      blockAccessList := first.diff.blockAccessList } }

theorem foldl_merge {first : FlashblocksPayload} (hbase : first.base.isSome)
    (rest : List FlashblocksPayload) : rest.foldl merge first = merged first rest := by
  induction rest using List.reverseRecOn with
  | nil => simp [merged]
  | append_singleton rest last ih =>
      have hkept : (merged first rest).base.isNone = false := by
        rw [Option.isNone_eq_false_iff]
        exact hbase
      rw [List.foldl_concat, ih, merge, hkept]
      simp [merged]

theorem foldlM_mergeNext (debugAssertions : Bool) {acc : FlashblocksPayload}
    {rest : List Flashblock} (hid : ∀ fb ∈ rest, fb.payloadId = acc.payloadId) :
    rest.foldlM (mergeNext debugAssertions) acc =
      .ok ((rest.map (·.flashblock)).foldl merge acc) := by
  induction rest generalizing acc with
  | nil => rfl
  | cons next rest ih =>
      have hnext : mergeNext debugAssertions acc next = .ok (merge acc next.flashblock) := by
        rw [mergeNext, if_neg]
        intro hassertion
        exact hassertion.2 (hid next List.mem_cons_self).symm
      rw [List.foldlM_cons, hnext]
      exact ih fun fb hfb => hid fb (List.mem_cons_of_mem _ hfb)

theorem reduce_eq (debugAssertions : Bool) (value : Flashblocks) {first : Flashblock}
    {rest : List Flashblock} (hvalue : value.toList = first :: rest) :
    reduce debugAssertions value.toList =
      .ok (some ⟨merged first.flashblock (rest.map (·.flashblock))⟩) := by
  have hfirst : first ∈ value.toList.head? := by
    rw [hvalue]
    rfl
  have hid : ∀ fb ∈ rest, fb.payloadId = first.payloadId := by
    intro fb hfb
    apply value.guaranteed.payloadId first hfirst
    rw [hvalue]
    exact List.mem_cons_of_mem _ hfb
  rw [hvalue, reduce, foldlM_mergeNext debugAssertions hid,
    foldl_merge (value.guaranteed.base first hfirst)]
  rfl

/-- The block as of the last flashblock: what they append is all there, the base
is the first one's and everything else is the last one's. -/
structure KeepsBlock (value : Flashblocks) (reduced : Flashblock) : Prop where
  transactions : reduced.diff.transactions = value.toList.flatMap fun fb => fb.diff.transactions
  withdrawals : reduced.diff.withdrawals = value.toList.flatMap fun fb => fb.diff.withdrawals
  base : reduced.base = value.first.base
  index : reduced.flashblock.index = value.last.flashblock.index
  metadata : reduced.flashblock.metadata = value.last.flashblock.metadata
  diff : { reduced.diff with transactions := [], withdrawals := [] } =
    { value.last.diff with transactions := [], withdrawals := [] }

theorem first_flashblock (value : Flashblocks) {first : Flashblock} {rest : List Flashblock}
    (hvalue : value.toList = first :: rest) : value.first = first := by
  have hhead := value.first_mem_head?
  rw [hvalue] at hhead
  exact (Option.some.inj hhead).symm

theorem last_flashblock (value : Flashblocks) {first : Flashblock} {rest : List Flashblock}
    (hvalue : value.toList = first :: rest) :
    (rest.map (·.flashblock)).getLastD first.flashblock = value.last.flashblock := by
  have hlast : value.toList.getLast? = some value.last :=
    List.getLast?_eq_some_getLast value.guaranteed.nonempty
  rw [hvalue, List.getLast?_cons] at hlast
  rw [← Option.some.inj hlast, List.getLastD_eq_getLast?, List.getLast?_map]
  cases rest.getLast? <;> rfl

/-- Of what describes the block so far, the loop forgets the access list. -/
theorem keepsBlock_merged_iff (value : Flashblocks) {first : Flashblock}
    {rest : List Flashblock} (hvalue : value.toList = first :: rest) :
    KeepsBlock value ⟨merged first.flashblock (rest.map (·.flashblock))⟩ ↔
      value.last.diff.blockAccessList = first.diff.blockAccessList := by
  have hfirst := first_flashblock value hvalue
  constructor
  · intro hkeeps
    have hdiff := congrArg ExecutionPayloadFlashblockDeltaV1.blockAccessList hkeeps.diff
    exact hdiff.symm
  · intro hsame
    constructor
    · rw [hvalue]
      simp [Flashblock.diff, merged, List.flatMap_map]
    · rw [hvalue]
      simp [Flashblock.diff, merged, List.flatMap_map]
    · rw [hfirst]
      rfl
    · rw [← last_flashblock value hvalue]
      rfl
    · rw [← last_flashblock value hvalue]
      rfl
    · have hlist : first.flashblock.diff.blockAccessList =
          value.last.flashblock.diff.blockAccessList := hsame.symm
      simp only [Flashblock.diff, merged, last_flashblock value hvalue, hlist]

theorem reduce_keeps_block_iff (debugAssertions : Bool) (value : Flashblocks) :
    (∃ reduced, reduce debugAssertions value.toList = .ok (some reduced) ∧
        KeepsBlock value reduced) ↔
      value.last.diff.blockAccessList = value.first.diff.blockAccessList := by
  obtain ⟨first, rest, hvalue⟩ := List.exists_cons_of_ne_nil value.guaranteed.nonempty
  have hfirst := first_flashblock value hvalue
  rw [hfirst, ← keepsBlock_merged_iff value hvalue, reduce_eq debugAssertions value hvalue]
  simp

def touching : Flashblocks where
  toList := [
    ⟨{ FlashblocksPayload.bare 7 0 with base := some {}, diff := { blockAccessList := some [] } }⟩,
    ⟨{ FlashblocksPayload.bare 7 1 with diff := { blockAccessList := some [{ address := 1 }] } }⟩]
  guaranteed := guaranteed_append (guaranteed_singleton rfl rfl) (by simp [Flashblock.payloadId,
    FlashblocksPayload.bare]) rfl

theorem reduce_forgets_touched : ¬∀ debugAssertions value, ∃ reduced,
    reduce debugAssertions value.toList = .ok (some reduced) ∧ KeepsBlock value reduced := by
  intro hall
  obtain ⟨reduced, hreduced, hkeeps⟩ := hall true touching
  have hstale : reduce true touching.toList = .ok (some ⟨{ FlashblocksPayload.bare 7 1 with
      base := some {}
      diff := { blockAccessList := some [] } }⟩) := by decide
  rw [hstale] at hreduced
  cases hreduced
  exact absurd hkeeps.diff (by decide)

theorem toU64_ofNat (n : UInt64) : toU64 (.ofNat 256 n.toNat) = .ok n := by
  have hlt := n.toNat_lt_size
  have hfits : n.toNat < 2 ^ 256 := Nat.lt_trans hlt (by decide)
  rw [toU64, BitVec.toNat_ofNat, Nat.mod_eq_of_lt hfits, if_pos hlt, UInt64.ofNat_toNat]

theorem blockOfFlashblock_eq {X : Crates Tx Db Core} {W : Conversions Tx} {value : Flashblock}
    {base : ExecutionPayloadBaseV1} (hbase : value.base = some base) {baseFeePerGas : UInt64}
    (hbaseFee : base.baseFeePerGas = .ofNat 256 baseFeePerGas.toNat)
    {transactions : List (Recovered Tx)}
    (hdecode : value.diff.transactions.mapM W.decode2718 = .ok (transactions.map (·.inner)))
    (hrecover : (transactions.map (·.inner)).mapM W.recoverSigner =
      .ok (transactions.map (·.signer))) :
    blockOfFlashblock X W value =
      .ok ⟨⟨headerOf X W base value.diff baseFeePerGas,
        bodyOf value.diff (transactions.map (·.inner))⟩, transactions.map (·.signer)⟩ := by
  rw [blockOfFlashblock, hbase]
  simp only [hbaseFee, toU64_ofNat, hdecode, bind, Except.bind, Except.mapError, hrecover]
  rfl

end WorldChain.Wire.Reduce
