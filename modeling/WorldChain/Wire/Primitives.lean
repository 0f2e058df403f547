import Mathlib.Data.List.Basic

/-! Wire types of `primitives.rs` and the collection of flashblocks of one
payload. The collection carries its documented guarantees as a field, so the
accessors that unwrap in the source are total here. -/
namespace WorldChain.Wire.Primitives

abbrev B64 := BitVec 64
abbrev B256 := BitVec 256
abbrev U256 := BitVec 256
abbrev Address := BitVec 160
abbrev Bloom := Vector B256 8
abbrev Bytes := List UInt8
abbrev PayloadId := B64

structure Withdrawal where
  index : UInt64 := 0
  validatorIndex : UInt64 := 0
  address : Address := 0
  amount : UInt64 := 0
  deriving DecidableEq

/-! EIP-7928 block access lists, one entry per touched account. -/

structure StorageChange where
  blockAccessIndex : UInt64
  newValue : U256
  deriving DecidableEq

structure SlotChanges where
  slot : U256
  changes : List StorageChange
  deriving DecidableEq

structure BalanceChange where
  blockAccessIndex : UInt64
  postBalance : U256
  deriving DecidableEq

structure NonceChange where
  blockAccessIndex : UInt64
  newNonce : UInt64
  deriving DecidableEq

structure CodeChange where
  blockAccessIndex : UInt64
  newCode : Bytes
  deriving DecidableEq

structure AccountChanges where
  address : Address
  storageChanges : List SlotChanges := []
  storageReads : List U256 := []
  balanceChanges : List BalanceChange := []
  nonceChanges : List NonceChange := []
  codeChanges : List CodeChange := []
  deriving DecidableEq

abbrev BlockAccessList := List AccountChanges

structure ExecutionPayloadFlashblockDeltaV1 where
  stateRoot : B256 := 0
  receiptsRoot : B256 := 0
  logsBloom : Bloom := .replicate 8 0
  gasUsed : UInt64 := 0
  blockHash : B256 := 0
  transactions : List Bytes := []
  withdrawals : List Withdrawal := []
  withdrawalsRoot : B256 := 0
  blockAccessList : Option BlockAccessList := none
  deriving DecidableEq

/-- The parts fixed when the payload job starts. -/
structure ExecutionPayloadBaseV1 where
  parentBeaconBlockRoot : B256 := 0
  parentHash : B256 := 0
  feeRecipient : Address := 0
  prevRandao : B256 := 0
  blockNumber : UInt64 := 0
  gasLimit : UInt64 := 0
  timestamp : UInt64 := 0
  extraData : Bytes := []
  baseFeePerGas : U256 := 0
  deriving DecidableEq

/-- `flashblockTimestamp` is an `i64`, in nanoseconds since the epoch. -/
structure FlashblockMetadata where
  fees : U256 := 0
  flashblockTimestamp : Option Int := none
  deriving DecidableEq

structure FlashblocksPayloadV1 (M : Type) where
  payloadId : PayloadId
  index : UInt64
  diff : ExecutionPayloadFlashblockDeltaV1
  metadata : M
  base : Option ExecutionPayloadBaseV1
  deriving DecidableEq

/-- The payload with the metadata type that the source takes by default. -/
abbrev FlashblocksPayload := FlashblocksPayloadV1 FlashblockMetadata

def FlashblocksPayload.bare (payloadId : PayloadId) (index : UInt64) : FlashblocksPayload where
  payloadId := payloadId
  index := index
  diff := {}
  metadata := {}
  base := none

structure Flashblock where
  flashblock : FlashblocksPayload
  deriving DecidableEq

def Flashblock.payloadId (self : Flashblock) : PayloadId := self.flashblock.payloadId

def Flashblock.base (self : Flashblock) : Option ExecutionPayloadBaseV1 :=
  self.flashblock.base

def Flashblock.diff (self : Flashblock) : ExecutionPayloadFlashblockDeltaV1 :=
  self.flashblock.diff

/-- What the doc comment of `Flashblocks` promises, and the base that
`Flashblocks::new` asks of the first element. -/
structure Guaranteed (flashblocks : List Flashblock) : Prop where
  nonempty : flashblocks ≠ []
  base : ∀ first ∈ flashblocks.head?, first.base.isSome
  payloadId : ∀ first ∈ flashblocks.head?, ∀ fb ∈ flashblocks, fb.payloadId = first.payloadId
  index : ∀ i, (h : i < flashblocks.length) → (flashblocks[i]).flashblock.index.toNat = i

theorem guaranteed_singleton {fb : Flashblock} (hindex : fb.flashblock.index = 0)
    (hbase : fb.base.isSome) : Guaranteed [fb] where
  nonempty := List.cons_ne_nil _ _
  base := by simpa using hbase
  payloadId := by simp
  index := by
    intro i hi
    have hzero : i = 0 := by simpa using hi
    subst hzero
    simp [hindex]

theorem guaranteed_append {flashblocks : List Flashblock} {fb : Flashblock}
    (hguaranteed : Guaranteed flashblocks)
    (hid : ∀ first ∈ flashblocks.head?, fb.payloadId = first.payloadId)
    (hindex : fb.flashblock.index.toNat = flashblocks.length) :
    Guaranteed (flashblocks ++ [fb]) := by
  obtain ⟨first, rest, rfl⟩ := List.exists_cons_of_ne_nil hguaranteed.nonempty
  refine ⟨by simp, by simpa using hguaranteed.base, ?_, ?_⟩
  · intro first' hfirst fb' hmem
    simp only [List.cons_append, List.head?_cons, Option.mem_def, Option.some.injEq] at hfirst
    subst hfirst
    rcases List.mem_append.mp hmem with hold | hnew
    · exact hguaranteed.payloadId first rfl fb' hold
    · rw [List.mem_singleton.mp hnew]
      exact hid first rfl
  · intro i hi
    by_cases hlt : i < (first :: rest).length
    · rw [List.getElem_append_left hlt]
      exact hguaranteed.index i hlt
    · have hlast : i = (first :: rest).length := by
        simp only [List.length_append, List.length_singleton] at hi
        omega
      subst hlast
      simpa using hindex

/-- A collection of flashblocks mapped to the same payload ID. -/
structure Flashblocks where
  toList : List Flashblock
  guaranteed : Guaranteed toList

@[ext] theorem Flashblocks.ext {left right : Flashblocks} (h : left.toList = right.toList) :
    left = right := by
  cases left
  cases right
  congr

instance : DecidableEq Flashblocks := fun left right =>
  decidable_of_iff (left.toList = right.toList)
    ⟨Flashblocks.ext, fun h => congrArg Flashblocks.toList h⟩

def Flashblocks.first (self : Flashblocks) : Flashblock :=
  self.toList.head self.guaranteed.nonempty

def Flashblocks.last (self : Flashblocks) : Flashblock :=
  self.toList.getLast self.guaranteed.nonempty

theorem Flashblocks.first_mem_head? (self : Flashblocks) : self.first ∈ self.toList.head? :=
  List.head?_eq_some_head self.guaranteed.nonempty

def Flashblocks.payloadId (self : Flashblocks) : PayloadId := self.first.payloadId

def Flashblocks.base (self : Flashblocks) : ExecutionPayloadBaseV1 :=
  self.first.base.get (self.guaranteed.base _ self.first_mem_head?)

/-- The collection a node starts from: one empty flashblock of the zero payload. -/
def Flashblocks.default : Flashblocks where
  toList := [⟨{ payloadId := 0, index := 0, diff := {}, metadata := {}, base := some {} }⟩]
  guaranteed := guaranteed_singleton rfl rfl

instance : Inhabited Flashblocks := ⟨Flashblocks.default⟩

inductive FlashblocksError
  | empty
  | firstWithoutBase
  | mixedPayloadIds
  | indicesNotContiguous
  | newPayloadIndexNotZero
  | newPayloadWithoutBase
  | newPayloadNotLater
  | indexNotContiguous (expected : Nat) (got : UInt64) (payloadId : PayloadId)
  deriving DecidableEq

def FlashblocksError.message : FlashblocksError → String
  | .empty => "Flashblocks cannot be empty"
  | .firstWithoutBase => "The first flashblock must contain the base payload"
  | .mixedPayloadIds => "All flashblocks must have the same payload_id"
  | .indicesNotContiguous => "Flashblocks must have contiguous indices starting from 0"
  | .newPayloadIndexNotZero => "New flashblock has different payload_id and index is not 0"
  | .newPayloadWithoutBase =>
      "New flashblock has different payload_id and must contain the base payload"
  | .newPayloadNotLater =>
      "New flashblock has different payload_id and must have a later timestamp than the current base"
  | .indexNotContiguous expected got payloadId =>
      "New flashblock index is not contiguous expected " ++ toString expected ++ ", got " ++
        toString got ++ ", payload_id: 0x" ++ payloadId.toHex

/-- `Flashblocks::new`: the checks in the order of the source. -/
def Flashblocks.new : List Flashblock → Except FlashblocksError Flashblocks
  | [] => .error .empty
  | first :: rest =>
      if hbase : first.base.isNone then .error .firstWithoutBase
      else if hid : rest.any fun fb => fb.payloadId ≠ first.payloadId then
        .error .mixedPayloadIds
      else if hindex : (first :: rest).zipIdx.any fun p => p.1.flashblock.index.toNat ≠ p.2 then
        .error .indicesNotContiguous
      else .ok ⟨first :: rest, by
        refine ⟨List.cons_ne_nil _ _, ?_, ?_, ?_⟩
        · simpa [Option.isSome_iff_ne_none] using hbase
        · intro first' hfirst fb hfb
          simp only [List.head?_cons, Option.mem_def, Option.some.injEq] at hfirst
          subst hfirst
          rcases List.mem_cons.mp hfb with rfl | hfb
          · rfl
          · simp only [List.any_eq_true, decide_eq_true_eq, not_exists, not_and, not_not] at hid
            exact hid fb hfb
        · intro i hi
          simp only [List.any_eq_true, decide_eq_true_eq, not_exists, not_and, not_not] at hindex
          exact hindex ((first :: rest)[i], i) (List.mem_zipIdx_iff_getElem?.mpr (by simp))⟩

/-- `Ok(true)` when the flashblock opens a new payload, `Ok(false)` when it
continues the current one. -/
def Flashblocks.isNewPayload (self : Flashblocks) (fb : Flashblock) :
    Except FlashblocksError Bool :=
  if fb.payloadId ≠ self.payloadId then
    if fb.flashblock.index ≠ 0 then
      .error .newPayloadIndexNotZero
    else
      match fb.flashblock.base with
      | none => .error .newPayloadWithoutBase
      | some base =>
          if base.timestamp ≤ self.base.timestamp then .error .newPayloadNotLater
          else .ok true
  else if fb.flashblock.index.toNat ≠ self.toList.length then
    .error (.indexNotContiguous self.toList.length fb.flashblock.index self.payloadId)
  else
    .ok false

theorem isNewPayload_true {self : Flashblocks} {fb : Flashblock}
    (h : self.isNewPayload fb = .ok true) :
    fb.payloadId ≠ self.payloadId ∧ fb.flashblock.index = 0 ∧
      ∃ base, fb.base = some base ∧ self.base.timestamp < base.timestamp := by
  unfold Flashblocks.isNewPayload at h
  split at h
  · rename_i hid
    split at h
    · cases h
    · rename_i hindex
      split at h
      · cases h
      · rename_i base hbase
        split at h
        · cases h
        · rename_i hlater
          exact ⟨hid, not_not.mp hindex, base, hbase, UInt64.not_le.mp hlater⟩
  · split at h <;> cases h

theorem isNewPayload_false {self : Flashblocks} {fb : Flashblock}
    (h : self.isNewPayload fb = .ok false) :
    fb.payloadId = self.payloadId ∧ fb.flashblock.index.toNat = self.toList.length := by
  unfold Flashblocks.isNewPayload at h
  split at h
  · split at h
    · cases h
    · split at h
      · cases h
      · split at h <;> cases h
  · rename_i hid
    split at h
    · cases h
    · rename_i hindex
      exact ⟨not_not.mp hid, not_not.mp hindex⟩

def Flashblocks.reset (self : Flashblocks) (fb : Flashblock)
    (h : self.isNewPayload fb = .ok true) : Flashblocks where
  toList := [fb]
  guaranteed := by
    obtain ⟨_, hindex, base, hbase, _⟩ := isNewPayload_true h
    exact guaranteed_singleton hindex (by simp [hbase])

def Flashblocks.extend (self : Flashblocks) (fb : Flashblock)
    (h : self.isNewPayload fb = .ok false) : Flashblocks where
  toList := self.toList ++ [fb]
  guaranteed := by
    obtain ⟨hid, hindex⟩ := isNewPayload_false h
    refine guaranteed_append self.guaranteed ?_ hindex
    intro first hfirst
    rw [hid]
    exact self.guaranteed.payloadId first hfirst _ (List.head_mem self.guaranteed.nonempty)

/-- `Flashblocks::push`. The source mutates only after the check, so a failing
push leaves the collection as it was. -/
def Flashblocks.push (self : Flashblocks) (fb : Flashblock) :
    Except FlashblocksError (Bool × Flashblocks) :=
  match h : self.isNewPayload fb with
  | .error e => .error e
  | .ok true => .ok (true, self.reset fb h)
  | .ok false => .ok (false, self.extend fb h)

theorem push_of_new {self : Flashblocks} {fb : Flashblock}
    (h : self.isNewPayload fb = .ok true) : self.push fb = .ok (true, self.reset fb h) := by
  unfold Flashblocks.push
  split
  · rename_i hpush
    exact absurd (h.symm.trans hpush) (by simp)
  · rfl
  · rename_i hpush
    exact absurd (h.symm.trans hpush) (by simp)

theorem push_of_next {self : Flashblocks} {fb : Flashblock}
    (h : self.isNewPayload fb = .ok false) : self.push fb = .ok (false, self.extend fb h) := by
  unfold Flashblocks.push
  split
  · rename_i hpush
    exact absurd (h.symm.trans hpush) (by simp)
  · rename_i hpush
    exact absurd (h.symm.trans hpush) (by simp)
  · rfl

theorem push_ok {self next : Flashblocks} {fb : Flashblock} {isNew : Bool}
    (h : self.push fb = .ok (isNew, next)) :
    self.isNewPayload fb = .ok isNew ∧ next.last = fb ∧ next.payloadId = fb.payloadId ∧
      next.toList = (if isNew then [fb] else self.toList ++ [fb]) := by
  unfold Flashblocks.push at h
  split at h
  · cases h
  · rename_i hnew
    obtain ⟨rfl, rfl⟩ := Prod.mk.inj (Except.ok.inj h)
    exact ⟨hnew, rfl, rfl, rfl⟩
  · rename_i hnext
    obtain ⟨rfl, rfl⟩ := Prod.mk.inj (Except.ok.inj h)
    refine ⟨hnext, by simp [Flashblocks.last, Flashblocks.extend], ?_, rfl⟩
    obtain ⟨hid, _⟩ := isNewPayload_false hnext
    rw [hid]
    simp only [Flashblocks.payloadId, Flashblocks.first, Flashblocks.extend]
    rw [List.head_append_of_ne_nil]

end WorldChain.Wire.Primitives
