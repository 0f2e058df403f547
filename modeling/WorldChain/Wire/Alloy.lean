import Mathlib.Data.Nat.Digits.Lemmas
import WorldChain.Wire.Message

/-! One choice of the codecs that meets their laws: RLP as alloy_rlp derives it
for the types of `primitives.rs`, and the metadata as a JSON object. -/
namespace WorldChain.Wire.Alloy
open Library.Encoding (Codec Fields)
open Library.Rlp Primitives Message

/-! JSON. -/

def ascii (text : String) : Bytes := text.toList.map fun c => .ofNat c.toNat

def digitByte (d : Nat) : UInt8 := .ofNat (if d < 10 then 0x30 + d else 0x57 + d)

def byteDigit (b : UInt8) : Nat := if b.toNat < 0x3a then b.toNat - 0x30 else b.toNat - 0x57

def isDigitByte (b : UInt8) : Bool := (0x30 ≤ b && b < 0x3a) || (0x61 ≤ b && b < 0x67)

def writeNumeral (base n : Nat) : Bytes :=
  if n = 0 then [0x30] else ((base.digits n).map digitByte).reverse

def readNumeral (base : Nat) (bytes : Bytes) : Nat :=
  Nat.ofDigits base (bytes.reverse.map byteDigit)

theorem byteDigit_digitByte : ∀ d < 16, byteDigit (digitByte d) = d := by decide

theorem isDigitByte_digitByte : ∀ d < 16, isDigitByte (digitByte d) := by decide

theorem readNumeral_writeNumeral {base : Nat} (h : 1 < base) (hle : base ≤ 16) (n : Nat) :
    readNumeral base (writeNumeral base n) = n := by
  unfold readNumeral writeNumeral
  split
  · rename_i hzero
    rw [hzero]
    rfl
  · have hdigits : ((base.digits n).map digitByte).map byteDigit = base.digits n := by
      rw [List.map_map]
      apply (List.map_congr_left _).trans (List.map_id _)
      intro d hd
      exact byteDigit_digitByte d (Nat.lt_of_lt_of_le (Nat.digits_lt_base h hd) hle)
    rw [List.reverse_reverse, hdigits, Nat.ofDigits_digits]

theorem isDigitByte_writeNumeral {base : Nat} (h : 1 < base) (hle : base ≤ 16) (n : Nat) :
    ∀ b ∈ writeNumeral base n, isDigitByte b := by
  intro b hb
  unfold writeNumeral at hb
  split at hb
  · rw [List.mem_singleton.mp hb]
    rfl
  · obtain ⟨d, hd, rfl⟩ := List.mem_map.mp (List.mem_reverse.mp hb)
    exact isDigitByte_digitByte d (Nat.lt_of_lt_of_le (Nat.digits_lt_base h hd) hle)

theorem span_numeral {base : Nat} (h : 1 < base) (hle : base ≤ 16) (n : Nat) {b : UInt8}
    (hb : isDigitByte b = false) (rest : Bytes) :
    (writeNumeral base n ++ b :: rest).span isDigitByte = (writeNumeral base n, b :: rest) := by
  rw [List.span_eq_takeWhile_dropWhile, List.takeWhile_append_of_pos, List.dropWhile_append_of_pos,
    List.takeWhile_cons_of_neg, List.dropWhile_cons_of_neg, List.append_nil]
  · simp [hb]
  · simp [hb]
  · exact isDigitByte_writeNumeral h hle n
  · exact isDigitByte_writeNumeral h hle n

def writeInt : Int → Bytes
  | .ofNat n => writeNumeral 10 n
  | .negSucc n => 0x2d :: writeNumeral 10 (n + 1)

def feesKey : Bytes := 0x7b :: ascii "\"fees\":\"0x"

def timestampKey : Bytes := 0x2c :: ascii "\"flashblock_timestamp\":"

def writeTimestamp : Option Int → Bytes
  | none => []
  | some timestamp => timestampKey ++ writeInt timestamp

def writeMetadata (metadata : FlashblockMetadata) : Bytes :=
  feesKey ++ (writeNumeral 16 metadata.fees.toNat ++ 0x22 ::
    (writeTimestamp metadata.flashblockTimestamp ++ [0x7d]))

def readKey (key bytes : Bytes) : Option Bytes :=
  if key.isPrefixOf bytes then some (bytes.drop key.length) else none

def readInt (bytes : Bytes) : Int × Bytes :=
  if bytes.head? = some 0x2d then
    let (digits, rest) := bytes.tail.span isDigitByte
    (-readNumeral 10 digits, rest)
  else
    let (digits, rest) := bytes.span isDigitByte
    (readNumeral 10 digits, rest)

def readTimestamp (bytes : Bytes) : Option Int × Bytes :=
  match readKey timestampKey bytes with
  | none => (none, bytes)
  | some rest =>
      let (timestamp, rest) := readInt rest
      (some timestamp, rest)

def readMetadata (bytes : Bytes) : Option FlashblockMetadata := do
  let rest ← readKey feesKey bytes
  let (digits, rest) := rest.span isDigitByte
  let rest ← readKey [0x22] rest
  let (timestamp, rest) := readTimestamp rest
  if rest = [0x7d] then
    some { fees := .ofNat 256 (readNumeral 16 digits), flashblockTimestamp := timestamp }
  else none

theorem readKey_append (key rest : Bytes) : readKey key (key ++ rest) = some rest := by
  unfold readKey
  rw [if_pos (by simp), List.drop_left]

theorem readInt_writeInt (timestamp : Int) {b : UInt8} (hb : isDigitByte b = false)
    (rest : Bytes) : readInt (writeInt timestamp ++ b :: rest) = (timestamp, b :: rest) := by
  cases timestamp with
  | ofNat n =>
      have hhead : (writeNumeral 10 n ++ b :: rest).head? ≠ some 0x2d := by
        intro hminus
        cases hnumeral : writeNumeral 10 n with
        | nil =>
            have hread := readNumeral_writeNumeral (by decide : 1 < 10) (by decide) n
            rw [hnumeral] at hread
            rw [← hread] at hnumeral
            cases hnumeral
        | cons digit digits =>
            rw [hnumeral] at hminus
            cases hminus
            have hdigit := isDigitByte_writeNumeral (by decide : 1 < 10) (by decide) n 0x2d
              (by simp [hnumeral])
            cases hdigit
      simp only [readInt, writeInt, hhead, ↓reduceIte, span_numeral (by decide : 1 < 10) (by decide)
        n hb rest, readNumeral_writeNumeral (by decide : 1 < 10) (by decide) n]
      rfl
  | negSucc n =>
      simp only [readInt, writeInt, List.cons_append, List.head?_cons, ↓reduceIte, List.tail_cons,
        span_numeral (by decide : 1 < 10) (by decide) (n + 1) hb rest,
        readNumeral_writeNumeral (by decide : 1 < 10) (by decide) (n + 1)]
      rfl

theorem readTimestamp_writeTimestamp (timestamp : Option Int) :
    readTimestamp (writeTimestamp timestamp ++ [0x7d]) = (timestamp, [0x7d]) := by
  cases timestamp with
  | none => rfl
  | some timestamp =>
      simp only [readTimestamp, writeTimestamp, List.append_assoc, readKey_append,
        readInt_writeInt timestamp (by decide : isDigitByte 0x7d = false)]

theorem readMetadata_writeMetadata (metadata : FlashblockMetadata) :
    readMetadata (writeMetadata metadata) = some metadata := by
  have hquote := fun rest => readKey_append [0x22] rest
  simp only [List.singleton_append] at hquote
  simp only [readMetadata, writeMetadata, readKey_append, Option.bind_eq_bind, Option.bind_some,
    span_numeral (by decide : 1 < 16) (by decide) metadata.fees.toNat
      (by decide : isDigitByte 0x22 = false),
    hquote, readTimestamp_writeTimestamp, ↓reduceIte,
    readNumeral_writeNumeral (by decide : 1 < 16) (by decide) metadata.fees.toNat,
    BitVec.ofNat_toNat, BitVec.setWidth_eq]

/-! RLP of the types of `primitives.rs`; a struct is the list of its fields. -/

def u8 : Codec RlpError UInt8 := number 1 UInt8.toNat UInt8.ofNat

def u64 : Codec RlpError UInt64 := number 8 UInt64.toNat UInt64.ofNat

def u256 : Codec RlpError U256 := number 32 BitVec.toNat (BitVec.ofNat 256)

def b64 : Codec RlpError B64 := word 8 64

def b256 : Codec RlpError B256 := word 32 256

def address : Codec RlpError Address := word 20 160

theorem u8_lawful : u8.Lawful limit :=
  number_lawful (fun a => a.toNat_lt) fun _ => UInt8.ofNat_toNat

theorem u64_lawful : u64.Lawful limit :=
  number_lawful (fun a => a.toNat_lt) fun _ => UInt64.ofNat_toNat

theorem u256_lawful : u256.Lawful limit :=
  number_lawful (fun a => a.isLt) fun _ => by rw [BitVec.ofNat_toNat, BitVec.setWidth_eq]

theorem u256_ne_nil (a : U256) : u256.encode a ≠ [] :=
  number_ne_nil 32 BitVec.toNat _ a

theorem b64_lawful : b64.Lawful limit := word_lawful (by decide)

theorem b256_lawful : b256.Lawful limit := word_lawful (by decide)

theorem address_lawful : address.Lawful limit := word_lawful (by decide)

def readWords : Nat → Bytes → List B256
  | 0, _ => []
  | n + 1, bytes => .ofNat 256 (value (bytes.take 32)) :: readWords n (bytes.drop 32)

theorem length_readWords (n : Nat) (bytes : Bytes) : (readWords n bytes).length = n := by
  induction n generalizing bytes with
  | zero => rfl
  | succ n ih => rw [readWords, List.length_cons, ih]

theorem readWords_flatMap (words : List B256) :
    readWords words.length (words.flatMap fun w => bigEndian 32 w.toNat) = words := by
  induction words with
  | nil => rfl
  | cons w words ih =>
      have hlength := length_bigEndian 32 w.toNat
      rw [List.length_cons, List.flatMap_cons, readWords]
      rw [List.take_left' hlength, List.drop_left' hlength, ih, value_bigEndian w.isLt]
      rw [BitVec.ofNat_toNat, BitVec.setWidth_eq]

def writeBloom (bloom : Bloom) : Bytes := bloom.toList.flatMap fun w => bigEndian 32 w.toNat

def readBloom (bytes : Bytes) : Bloom := ⟨(readWords 8 bytes).toArray, length_readWords 8 bytes⟩

def bloom : Codec RlpError Bloom := fixedString 256 writeBloom readBloom

theorem bloom_lawful : bloom.Lawful limit := by
  apply fixedString_lawful
  · intro bloom
    simp [writeBloom, List.length_flatMap]
  · intro bloom
    apply Vector.toList_inj.mp
    have hwords := readWords_flatMap bloom.toList
    rw [Vector.length_toList] at hwords
    exact hwords

def withdrawal : Codec RlpError Withdrawal :=
  list ((u64.before (u64.before (address.before (u64.last .unexpectedLength)))).via
    (fun w => (w.index, w.validatorIndex, w.address, w.amount))
    fun (index, validatorIndex, address, amount) => { index, validatorIndex, address, amount })

theorem withdrawal_ne_nil (w : Withdrawal) : withdrawal.encode w ≠ [] := list_ne_nil _ w

theorem withdrawal_lawful : withdrawal.Lawful limit := by
  apply list_lawful
  apply Fields.Lawful.via _ fun _ => rfl
  apply u64_lawful.before
  apply u64_lawful.before
  apply address_lawful.before
  exact u64_lawful.last _

def change {T C : Type} (value : Codec RlpError T) (write : C → UInt64 × T)
    (read : UInt64 × T → C) : Codec RlpError C :=
  list ((u64.before (value.last .unexpectedLength)).via write read)

theorem change_lawful {T C : Type} {value : Codec RlpError T} (h : value.Lawful limit)
    {write : C → UInt64 × T} {read : UInt64 × T → C} (hread : ∀ c, read (write c) = c) :
    (change value write read).Lawful limit :=
  list_lawful ((u64_lawful.before (h.last _)).via hread)

theorem change_ne_nil {T C : Type} (value : Codec RlpError T) (write : C → UInt64 × T)
    (read : UInt64 × T → C) (c : C) : (change value write read).encode c ≠ [] :=
  list_ne_nil _ c

def storageChange : Codec RlpError StorageChange :=
  change u256 (fun c => (c.blockAccessIndex, c.newValue)) fun p => ⟨p.1, p.2⟩

def balanceChange : Codec RlpError BalanceChange :=
  change u256 (fun c => (c.blockAccessIndex, c.postBalance)) fun p => ⟨p.1, p.2⟩

def nonceChange : Codec RlpError NonceChange :=
  change u64 (fun c => (c.blockAccessIndex, c.newNonce)) fun p => ⟨p.1, p.2⟩

def codeChange : Codec RlpError CodeChange :=
  change string (fun c => (c.blockAccessIndex, c.newCode)) fun p => ⟨p.1, p.2⟩

theorem changes_lawful {T C : Type} {value : Codec RlpError T} (h : value.Lawful limit)
    {write : C → UInt64 × T} {read : UInt64 × T → C} (hread : ∀ c, read (write c) = c) :
    (listOf (change value write read)).Lawful limit :=
  listOf_lawful (change_lawful h hread) (change_ne_nil value write read)

def slotChanges : Codec RlpError SlotChanges :=
  list ((u256.before ((listOf storageChange).last .unexpectedLength)).via
    (fun s => (s.slot, s.changes)) fun p => ⟨p.1, p.2⟩)

theorem slotChanges_lawful : slotChanges.Lawful limit := by
  apply list_lawful
  apply Fields.Lawful.via _ fun _ => rfl
  apply u256_lawful.before
  apply Codec.Lawful.last
  exact changes_lawful u256_lawful fun _ => rfl

theorem slotChanges_ne_nil (s : SlotChanges) : slotChanges.encode s ≠ [] := list_ne_nil _ s

def accountChanges : Codec RlpError AccountChanges :=
  list ((address.before ((listOf slotChanges).before ((listOf u256).before
    ((listOf balanceChange).before ((listOf nonceChange).before
      ((listOf codeChange).last .unexpectedLength)))))).via
    (fun a => (a.address, a.storageChanges, a.storageReads, a.balanceChanges, a.nonceChanges,
      a.codeChanges))
    fun (address, storageChanges, storageReads, balanceChanges, nonceChanges, codeChanges) =>
      { address, storageChanges, storageReads, balanceChanges, nonceChanges, codeChanges })

theorem accountChanges_lawful : accountChanges.Lawful limit := by
  apply list_lawful
  apply Fields.Lawful.via _ fun _ => rfl
  apply address_lawful.before
  apply (listOf_lawful slotChanges_lawful slotChanges_ne_nil).before
  apply (listOf_lawful u256_lawful u256_ne_nil).before
  apply (changes_lawful u256_lawful fun _ => rfl).before
  apply (changes_lawful u64_lawful fun _ => rfl).before
  apply Codec.Lawful.last
  exact changes_lawful string_lawful fun _ => rfl

theorem accountChanges_ne_nil (a : AccountChanges) : accountChanges.encode a ≠ [] :=
  list_ne_nil _ a

def blockAccessList : Codec RlpError BlockAccessList := listOf accountChanges

/-- The access list is a trailing field: left out when it is absent. -/
def diff : Codec RlpError ExecutionPayloadFlashblockDeltaV1 :=
  list ((b256.before (b256.before (bloom.before (u64.before (b256.before
    ((listOf string).before ((listOf withdrawal).before (b256.before
      (blockAccessList.trailing 0x80 .unexpectedLength))))))))).via
    (fun d => (d.stateRoot, d.receiptsRoot, d.logsBloom, d.gasUsed, d.blockHash, d.transactions,
      d.withdrawals, d.withdrawalsRoot, d.blockAccessList))
    fun (stateRoot, receiptsRoot, logsBloom, gasUsed, blockHash, transactions, withdrawals,
        withdrawalsRoot, blockAccessList) =>
      { stateRoot, receiptsRoot, logsBloom, gasUsed, blockHash, transactions, withdrawals,
        withdrawalsRoot, blockAccessList })

theorem diff_lawful : diff.Lawful limit := by
  apply list_lawful
  apply Fields.Lawful.via _ fun _ => rfl
  apply b256_lawful.before
  apply b256_lawful.before
  apply bloom_lawful.before
  apply u64_lawful.before
  apply b256_lawful.before
  apply (listOf_lawful string_lawful string_ne_nil).before
  apply (listOf_lawful withdrawal_lawful withdrawal_ne_nil).before
  apply b256_lawful.before
  apply Codec.Lawful.trailing
  · exact listOf_lawful accountChanges_lawful accountChanges_ne_nil
  · exact list_head_ne _

def base : Codec RlpError ExecutionPayloadBaseV1 :=
  list ((b256.before (b256.before (address.before (b256.before (u64.before (u64.before
    (u64.before (string.before (u256.last .unexpectedLength))))))))).via
    (fun b => (b.parentBeaconBlockRoot, b.parentHash, b.feeRecipient, b.prevRandao, b.blockNumber,
      b.gasLimit, b.timestamp, b.extraData, b.baseFeePerGas))
    fun (parentBeaconBlockRoot, parentHash, feeRecipient, prevRandao, blockNumber, gasLimit,
        timestamp, extraData, baseFeePerGas) =>
      { parentBeaconBlockRoot, parentHash, feeRecipient, prevRandao, blockNumber, gasLimit,
        timestamp, extraData, baseFeePerGas })

theorem base_lawful : base.Lawful limit := by
  apply list_lawful
  apply Fields.Lawful.via _ fun _ => rfl
  apply b256_lawful.before
  apply b256_lawful.before
  apply address_lawful.before
  apply b256_lawful.before
  apply u64_lawful.before
  apply u64_lawful.before
  apply u64_lawful.before
  apply string_lawful.before
  exact u256_lawful.last _

def header : Codec RlpError RlpHeader where
  encode := encodeHeader
  length header := headerLength header.payloadLength
  decode := decodeHeader

def sampleCodecs : Codecs FlashblockMetadata where
  header := header
  u8 := u8
  u64 := u64
  b64 := b64
  bytes := string
  diff := diff
  base := base
  toJson := writeMetadata
  fromJson := readMetadata

theorem sample_lawful : sampleCodecs.Lawful where
  headerLength header := (length_encodeHeader header).symm
  header payloadLength rest hle hlimit := by
    have hsize : payloadLength < 256 ^ 8 := by
      simp only [limit, UInt64.size] at hlimit
      omega
    apply decodeHeader_encodeHeader hsize hle
    intro hstring
    cases hstring
  u8 := u8_lawful
  u8Zero := rfl
  u64 := u64_lawful
  b64 := b64_lawful
  bytes := string_lawful
  diff := diff_lawful
  base := base_lawful
  baseHead := list_head _
  json := readMetadata_writeMetadata

def samplePayload : FlashblocksPayload where
  payloadId := 1
  index := 0
  diff := { gasUsed := 300, transactions := [[0x02, 0xff], []], blockAccessList := some [] }
  metadata := { fees := 26, flashblockTimestamp := some (-1) }
  base := some { blockNumber := 7, extraData := [0x61] }

theorem wire_round_trip_sample :
    decodeMsg sampleCodecs
        (encodeMsg sampleCodecs (.flashblocksPayloadV1 samplePayload) ++ [0xc0, 0x80]) =
      .ok (.flashblocksPayloadV1 samplePayload, [0xc0, 0x80]) :=
  (wire_round_trip sample_lawful samplePayload [0xc0, 0x80] (by decide +kernel)).2.2.2

end WorldChain.Wire.Alloy
