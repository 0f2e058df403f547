import WorldChain.Library.Rlp
import WorldChain.Wire.Primitives

/-! The wire format of a flashblock, which `primitives.rs` and `p2p.rs` write by
hand: one list of five items under a tag. The base is optional by a marker
byte, the access list inside the diff by leaving it out. -/
namespace WorldChain.Wire.Message
open Library.Encoding (Codec Fields)
open Library.Rlp Primitives

/-- The codecs of alloy_rlp for the parts of a flashblock, and serde_json for
its metadata, which never fails to write. -/
structure Codecs (M : Type) where
  header : Codec RlpError RlpHeader
  u8 : Codec RlpError UInt8
  u64 : Codec RlpError UInt64
  b64 : Codec RlpError B64
  bytes : Codec RlpError Bytes
  diff : Codec RlpError ExecutionPayloadFlashblockDeltaV1
  base : Codec RlpError ExecutionPayloadBaseV1
  toJson : M → Bytes
  fromJson : Bytes → Option M

/-- The codecs read back what they write; a struct is written as a list. -/
structure Codecs.Lawful {M : Type} (C : Codecs M) : Prop where
  headerLength : ∀ header, C.header.length header = (C.header.encode header).length
  header : ∀ payloadLength rest, payloadLength ≤ rest.length → rest.length ≤ limit →
    C.header.decode (C.header.encode ⟨true, payloadLength⟩ ++ rest) =
      .ok (⟨true, payloadLength⟩, rest)
  u8 : C.u8.Lawful limit
  u8Zero : C.u8.encode 0 = [0x80]
  u64 : C.u64.Lawful limit
  b64 : C.b64.Lawful limit
  bytes : C.bytes.Lawful limit
  diff : C.diff.Lawful limit
  base : C.base.Lawful limit
  baseHead : ∀ base, ∃ b ∈ (C.base.encode base).head?, 0xc0 ≤ b.toNat
  json : ∀ metadata, C.fromJson (C.toJson metadata) = some metadata

/-- An error of the decoder, or a slice out of range. -/
inductive DecodeError
  | rlp (e : RlpError)
  | panic (message : String)
  deriving DecidableEq

def rlp {α : Type} : Except RlpError α → Except DecodeError α := Except.mapError .rlp

def splitAt (buf : Bytes) (n : Nat) : Except DecodeError (Bytes × Bytes) :=
  if n ≤ buf.length then .ok (buf.take n, buf.drop n)
  else .error (.panic "range end index out of range for slice")

variable {M : Type} (C : Codecs M)

def rlpEmptyLen : Nat := 1

def computePayloadLength (self : FlashblocksPayloadV1 M) : Nat × Bytes :=
  let jsonBytes := C.toJson self.metadata
  let baseLen := (self.base.map C.base.length).getD rlpEmptyLen
  (C.b64.length self.payloadId + C.u64.length self.index + C.diff.length self.diff +
    C.bytes.length jsonBytes + baseLen, jsonBytes)

def encodeBase : Option ExecutionPayloadBaseV1 → Bytes
  | some base => C.base.encode base
  | none => [0x80]

def encodePayload (self : FlashblocksPayloadV1 M) : Bytes :=
  let (payloadLen, jsonBytes) := computePayloadLength C self
  C.header.encode ⟨true, payloadLen⟩ ++ (C.b64.encode self.payloadId ++ (C.u64.encode self.index ++
    (C.diff.encode self.diff ++ (C.bytes.encode jsonBytes ++ encodeBase C self.base))))

def lengthPayload (self : FlashblocksPayloadV1 M) : Nat :=
  let payloadLen := (computePayloadLength C self).1
  C.header.length ⟨true, payloadLen⟩ + payloadLen

/-- The marker is not consumed; the window ends behind it. -/
def decodeBase (body : Bytes) : Except DecodeError (Option ExecutionPayloadBaseV1) :=
  if body.head? = some 0x80 then return none
  else do
    let (base, _) ← rlp (C.base.decode body)
    return some base

def decodeMetadata (metaBytes : Bytes) : Except DecodeError M :=
  match C.fromJson metaBytes with
  | some metadata => .ok metadata
  | none => .error (.rlp (.custom "bad JSON"))

/-- The items, read inside the window of the list. -/
def decodeBody (body : Bytes) : Except DecodeError (FlashblocksPayloadV1 M) := do
  let (payloadId, body) ← rlp (C.b64.decode body)
  let (index, body) ← rlp (C.u64.decode body)
  let (diff, body) ← rlp (C.diff.decode body)
  let (metaBytes, body) ← rlp (C.bytes.decode body)
  let metadata ← decodeMetadata C metaBytes
  let base ← decodeBase C body
  return { payloadId, index, diff, metadata, base }

def decodePayload (buf : Bytes) : Except DecodeError (FlashblocksPayloadV1 M × Bytes) := do
  let (header, buf) ← rlp (C.header.decode buf)
  if header.list then
    let (body, rest) ← splitAt buf header.payloadLength
    let payload ← decodeBody C body
    return (payload, rest)
  else .error (.rlp .unexpectedString)

def payloadCodec : Codec DecodeError (FlashblocksPayloadV1 M) where
  encode := encodePayload C
  length := lengthPayload C
  decode := decodePayload C

inductive FlashblocksP2PMsg
  | flashblocksPayloadV1 (payload : FlashblocksPayload)
  deriving DecidableEq

variable (D : Codecs FlashblockMetadata)

def encodeMsg : FlashblocksP2PMsg → Bytes
  | .flashblocksPayloadV1 payload => D.u8.encode 0 ++ encodePayload D payload

def lengthMsg : FlashblocksP2PMsg → Nat
  | .flashblocksPayloadV1 payload => 1 + lengthPayload D payload

def decodeMsg (buf : Bytes) : Except DecodeError (FlashblocksP2PMsg × Bytes) := do
  let (tag, buf) ← rlp (D.u8.decode buf)
  if tag = 0 then
    let (payload, buf) ← decodePayload D buf
    return (.flashblocksPayloadV1 payload, buf)
  else .error (.rlp (.custom "unknown tag"))

def msgCodec : Codec DecodeError FlashblocksP2PMsg where
  encode := encodeMsg D
  length := lengthMsg D
  decode := decodeMsg D

/-! The round trip. -/

theorem splitAt_append (body rest : Bytes) :
    splitAt (body ++ rest) body.length = .ok (body, rest) := by
  unfold splitAt
  rw [if_pos (by simp), List.take_left, List.drop_left]

def encodeBody (self : FlashblocksPayloadV1 M) : Bytes :=
  C.b64.encode self.payloadId ++ (C.u64.encode self.index ++ (C.diff.encode self.diff ++
    (C.bytes.encode (C.toJson self.metadata) ++ encodeBase C self.base)))

variable {C}

theorem length_encodeBase (h : C.Lawful) (base : Option ExecutionPayloadBaseV1) :
    (base.map C.base.length).getD rlpEmptyLen = (encodeBase C base).length := by
  cases base with
  | none => rfl
  | some base => exact h.base.length base

theorem computePayloadLength_eq (h : C.Lawful) (self : FlashblocksPayloadV1 M) :
    (computePayloadLength C self).1 = (encodeBody C self).length := by
  simp only [computePayloadLength, encodeBody, List.length_append, h.b64.length, h.u64.length,
    h.diff.length, h.bytes.length, length_encodeBase h]
  omega

theorem encodePayload_eq (h : C.Lawful) (self : FlashblocksPayloadV1 M) :
    encodePayload C self =
      C.header.encode ⟨true, (encodeBody C self).length⟩ ++ encodeBody C self := by
  rw [← computePayloadLength_eq h]
  rfl

theorem decodeBase_encodeBase (h : C.Lawful) (base : Option ExecutionPayloadBaseV1)
    (hlimit : (encodeBase C base).length ≤ limit) :
    decodeBase C (encodeBase C base) = .ok base := by
  cases base with
  | none => rfl
  | some base =>
      obtain ⟨b, hb, hlist⟩ := h.baseHead base
      have hmarker : (C.base.encode base).head? ≠ some 0x80 := by
        intro hhead
        rw [Option.mem_def, hhead] at hb
        cases hb
        exact absurd hlist (by decide)
      have hdecode := h.base.decode base []
      rw [List.append_nil] at hdecode
      simp only [decodeBase, encodeBase, hmarker, ↓reduceIte, rlp, hdecode hlimit,
        Except.mapError, bind, Except.bind]
      rfl

theorem decodeBody_encodeBody (h : C.Lawful) (self : FlashblocksPayloadV1 M)
    (hlimit : (encodeBody C self).length ≤ limit) : decodeBody C (encodeBody C self) = .ok self := by
  simp only [encodeBody, List.length_append] at hlimit
  have hid := h.b64.decode self.payloadId (C.u64.encode self.index ++
    (C.diff.encode self.diff ++ (C.bytes.encode (C.toJson self.metadata) ++
      encodeBase C self.base))) (by simp only [List.length_append]; omega)
  have hindex := h.u64.decode self.index (C.diff.encode self.diff ++
    (C.bytes.encode (C.toJson self.metadata) ++ encodeBase C self.base))
      (by simp only [List.length_append]; omega)
  have hdiff := h.diff.decode self.diff
    (C.bytes.encode (C.toJson self.metadata) ++ encodeBase C self.base)
      (by simp only [List.length_append]; omega)
  have hjson := h.bytes.decode (C.toJson self.metadata) (encodeBase C self.base)
    (by simp only [List.length_append]; omega)
  have hbase := decodeBase_encodeBase h self.base (by omega)
  simp only [decodeBody, encodeBody, rlp, hid, hindex, hdiff, hjson, Except.mapError, bind,
    Except.bind, decodeMetadata, h.json, hbase]
  rfl

theorem payload_lawful (h : C.Lawful) : (payloadCodec C).Lawful limit where
  length self := by
    have hlength := computePayloadLength_eq h self
    simp only [payloadCodec, lengthPayload, encodePayload_eq h, hlength, h.headerLength,
      List.length_append]
  decode self rest hlimit := by
    simp only [payloadCodec, encodePayload_eq h, List.append_assoc] at hlimit ⊢
    have hwindow : (encodeBody C self ++ rest).length ≤ limit := by
      rw [List.length_append] at hlimit
      omega
    have hbody : (encodeBody C self).length ≤ limit := by
      rw [List.length_append] at hwindow
      omega
    have hheader := h.header (encodeBody C self).length (encodeBody C self ++ rest) (by simp) hwindow
    simp only [decodePayload, rlp, hheader, Except.mapError, bind, Except.bind, ↓reduceIte,
      splitAt_append, decodeBody_encodeBody h self hbody]
    rfl

variable {D}

theorem msg_lawful (h : D.Lawful) : (msgCodec D).Lawful limit where
  length
    | .flashblocksPayloadV1 payload => by
        have hlength := (payload_lawful h).length payload
        simp only [payloadCodec] at hlength
        simp only [msgCodec, lengthMsg, encodeMsg, h.u8Zero, hlength, List.length_append,
          List.length_singleton]
  decode
    | .flashblocksPayloadV1 payload, rest, hlimit => by
        simp only [msgCodec, encodeMsg, List.append_assoc] at hlimit ⊢
        have hpayload : (encodePayload D payload ++ rest).length ≤ limit := by
          rw [List.length_append] at hlimit
          omega
        have htag := h.u8.decode 0 (encodePayload D payload ++ rest) hlimit
        have hdecode := (payload_lawful h).decode payload rest hpayload
        simp only [payloadCodec] at hdecode
        simp only [decodeMsg, rlp, htag, Except.mapError, bind, Except.bind, ↓reduceIte, hdecode]
        rfl

/-- Whatever follows in the buffer, which is no longer than its length can say. -/
theorem wire_round_trip (h : D.Lawful) (payload : FlashblocksPayload) (suffix : Bytes)
    (hlimit : (encodeMsg D (.flashblocksPayloadV1 payload) ++ suffix).length ≤ limit) :
    lengthPayload D payload = (encodePayload D payload).length ∧
      decodePayload D (encodePayload D payload ++ suffix) = .ok (payload, suffix) ∧
      lengthMsg D (.flashblocksPayloadV1 payload) =
        (encodeMsg D (.flashblocksPayloadV1 payload)).length ∧
      decodeMsg D (encodeMsg D (.flashblocksPayloadV1 payload) ++ suffix) =
        .ok (.flashblocksPayloadV1 payload, suffix) := by
  have hpayload : (encodePayload D payload ++ suffix).length ≤ limit := by
    simp only [encodeMsg, List.length_append] at hlimit ⊢
    omega
  refine ⟨(payload_lawful h).length payload, (payload_lawful h).decode payload suffix hpayload,
    (msg_lawful h).length _, (msg_lawful h).decode _ suffix hlimit⟩

end WorldChain.Wire.Message
