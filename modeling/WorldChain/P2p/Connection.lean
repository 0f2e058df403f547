import WorldChain.P2p.OrderedState

/-! One peer connection: the filter in front of `publish` for messages that a
peer sends, with its own record of what that peer has already sent. -/
namespace WorldChain.P2p.Connection
open Library Library.ReorderBuffer Wire.Primitives Publish OrderedState

inductive ReputationChangeKind
  | badMessage
  | alreadySeenTransaction
  deriving DecidableEq

structure FlashblocksConnection where
  payloadId : PayloadId := 0
  received : List Bool := []
  deriving DecidableEq

structure Handled where
  state : FlashblocksP2PState
  sent : List Sent := []
  reputationChange : Option ReputationChangeKind := none

/-- Validation step 1: any other payload id clears the record. -/
def FlashblocksConnection.trackPayload (self : FlashblocksConnection)
    (payload : FlashblocksPayload) : FlashblocksConnection :=
  if self.payloadId ≠ payload.payloadId then
    { self with
      payloadId := payload.payloadId
      received := self.received.map fun _ => false }
  else self

def FlashblocksConnection.resizeFor (self : FlashblocksConnection) (index : Nat) :
    FlashblocksConnection :=
  { self with
    received := self.received ++ List.replicate (index + 1 - self.received.length) false }

def FlashblocksConnection.mark (self : FlashblocksConnection) (index : Nat) :
    FlashblocksConnection :=
  { self with received := self.received.set index true }

/-- `FlashblocksConnection::handle_flashblocks_payload_v1`, under the lock of the
ordering state. -/
def FlashblocksConnection.handleFlashblocksPayloadV1 (encode : FlashblocksPayload → Bytes)
    (now : Int) (self : FlashblocksConnection) (state : FlashblocksP2PState)
    (payload : FlashblocksPayload) : FlashblocksConnection × Handled :=
  let index := payload.index.toNat
  let self := self.trackPayload payload
  if maxFlashblockIndex < index then (self, { state })
  else
    let self := self.resizeFor index
    if self.received[index]? = some true then
      (self, { state, reputationChange := some .alreadySeenTransaction })
    else
      let published := publish encode now state payload
      (self.mark index, { state := published.1, sent := published.2 })

def FlashblocksConnection.forwards (self : FlashblocksConnection)
    (payload : FlashblocksPayload) : Bool :=
  payload.index.toNat ≤ maxFlashblockIndex &&
    ((self.trackPayload payload).resizeFor payload.index.toNat).received[payload.index.toNat]? ≠
      some true

/-! What the record says about the peer. -/

def FlashblocksConnection.Marked (self : FlashblocksConnection) (key : PayloadId × Nat) : Prop :=
  self.payloadId = key.1 ∧ self.received[key.2]? = some true

@[simp] theorem trackPayload_payloadId (self : FlashblocksConnection)
    (payload : FlashblocksPayload) :
    (self.trackPayload payload).payloadId = payload.payloadId := by
  unfold FlashblocksConnection.trackPayload
  split
  · rfl
  · rename_i hid
    exact not_not.mp hid

theorem marked_trackPayload (self : FlashblocksConnection) (payload : FlashblocksPayload)
    (key : PayloadId × Nat) :
    (self.trackPayload payload).Marked key ↔ payload.payloadId = key.1 ∧ self.Marked key := by
  unfold FlashblocksConnection.trackPayload FlashblocksConnection.Marked
  split
  · rename_i hother
    have hcleared : (self.received.map fun _ => false)[key.2]? ≠ some true := by
      rw [List.getElem?_map]
      cases self.received[key.2]? <;> simp
    constructor
    · intro h
      exact (hcleared h.2).elim
    · rintro ⟨hpayload, hself, _⟩
      exact (hother (hself.trans hpayload.symm)).elim
  · rename_i hsame
    rw [not_not.mp hsame]
    simp

@[simp] theorem marked_resizeFor (self : FlashblocksConnection) (index : Nat)
    (key : PayloadId × Nat) : (self.resizeFor index).Marked key ↔ self.Marked key := by
  unfold FlashblocksConnection.resizeFor FlashblocksConnection.Marked
  dsimp only
  rw [List.getElem?_append]
  split
  · rfl
  · rename_i hpast
    rw [List.getElem?_replicate, List.getElem?_eq_none (by omega)]
    split <;> simp

theorem length_resizeFor (self : FlashblocksConnection) (index : Nat) :
    (self.resizeFor index).received.length = max self.received.length (index + 1) := by
  simp only [FlashblocksConnection.resizeFor, List.length_append, List.length_replicate]
  omega

theorem marked_mark {self : FlashblocksConnection} {index : Nat}
    (hlt : index < self.received.length) (key : PayloadId × Nat) :
    (self.mark index).Marked key ↔ key = (self.payloadId, index) ∨ self.Marked key := by
  unfold FlashblocksConnection.mark FlashblocksConnection.Marked
  dsimp only
  by_cases hindex : index = key.2
  · subst hindex
    rw [List.getElem?_set_self hlt, Prod.ext_iff]
    constructor
    · rintro ⟨hid, _⟩
      exact .inl ⟨hid.symm, rfl⟩
    · rintro (⟨hid, _⟩ | ⟨hid, _⟩)
      · exact ⟨hid.symm, rfl⟩
      · exact ⟨hid, rfl⟩
  · rw [List.getElem?_set_ne hindex, Prod.ext_iff]
    constructor
    · exact .inr
    · rintro (⟨_, heq⟩ | h)
      · exact (hindex heq.symm).elim
      · exact h

def FlashblocksConnection.tracked (self : FlashblocksConnection) (payload : FlashblocksPayload) :
    FlashblocksConnection :=
  (self.trackPayload payload).resizeFor payload.index.toNat

theorem marked_tracked (self : FlashblocksConnection) (payload : FlashblocksPayload)
    (key : PayloadId × Nat) :
    (self.tracked payload).Marked key ↔ payload.payloadId = key.1 ∧ self.Marked key := by
  rw [FlashblocksConnection.tracked, marked_resizeFor, marked_trackPayload]

theorem tracked_seen_iff (self : FlashblocksConnection) (payload : FlashblocksPayload) :
    (self.tracked payload).received[payload.index.toNat]? = some true ↔
      self.Marked (payloadKey payload) := by
  have hmarked := marked_tracked self payload (payloadKey payload)
  have hid : (self.tracked payload).payloadId = (payloadKey payload).1 :=
    trackPayload_payloadId self payload
  constructor
  · intro hseen
    exact (hmarked.mp ⟨hid, hseen⟩).2
  · intro hself
    exact (hmarked.mpr ⟨rfl, hself⟩).2

theorem marked_mark_tracked (self : FlashblocksConnection) (payload : FlashblocksPayload)
    (key : PayloadId × Nat) :
    ((self.tracked payload).mark payload.index.toNat).Marked key ↔
      key = payloadKey payload ∨ payload.payloadId = key.1 ∧ self.Marked key := by
  have hlt : payload.index.toNat < (self.tracked payload).received.length := by
    rw [FlashblocksConnection.tracked, length_resizeFor]
    omega
  have hid : (self.tracked payload).payloadId = payload.payloadId :=
    trackPayload_payloadId self payload
  rw [marked_mark hlt, marked_tracked, hid]
  rfl

theorem forwards_iff (self : FlashblocksConnection) (payload : FlashblocksPayload) :
    self.forwards payload ↔
      payload.index.toNat ≤ maxFlashblockIndex ∧ ¬self.Marked (payloadKey payload) := by
  rw [← tracked_seen_iff]
  simp [FlashblocksConnection.forwards, FlashblocksConnection.tracked]

/-- Everything that can become of a message: its index is out of range, it has
been seen before, or it is passed on. -/
theorem handle_cases (encode : FlashblocksPayload → Bytes) (now : Int)
    (self : FlashblocksConnection) (state : FlashblocksP2PState) (payload : FlashblocksPayload) :
    (maxFlashblockIndex < payload.index.toNat ∧
      self.handleFlashblocksPayloadV1 encode now state payload =
        (self.trackPayload payload, { state })) ∨
    (payload.index.toNat ≤ maxFlashblockIndex ∧ self.Marked (payloadKey payload) ∧
      self.handleFlashblocksPayloadV1 encode now state payload =
        (self.tracked payload, { state, reputationChange := some .alreadySeenTransaction })) ∨
    (payload.index.toNat ≤ maxFlashblockIndex ∧ ¬self.Marked (payloadKey payload) ∧
      self.handleFlashblocksPayloadV1 encode now state payload =
        ((self.tracked payload).mark payload.index.toNat, {
          state := (publish encode now state payload).1
          sent := (publish encode now state payload).2 })) := by
  unfold FlashblocksConnection.handleFlashblocksPayloadV1
  rw [← tracked_seen_iff]
  by_cases hindex : maxFlashblockIndex < payload.index.toNat
  · exact .inl ⟨hindex, by simp only [hindex, ↓reduceIte]⟩
  · have hle : payload.index.toNat ≤ maxFlashblockIndex := Nat.le_of_not_lt hindex
    by_cases hseen : (self.tracked payload).received[payload.index.toNat]? = some true
    · refine .inr (.inl ⟨hle, hseen, ?_⟩)
      simp only [hindex, ↓reduceIte]
      exact if_pos hseen
    · refine .inr (.inr ⟨hle, hseen, ?_⟩)
      simp only [hindex, ↓reduceIte]
      exact if_neg hseen

theorem handle_state (encode : FlashblocksPayload → Bytes) (now : Int)
    (self : FlashblocksConnection) (state : FlashblocksP2PState) (payload : FlashblocksPayload) :
    (self.handleFlashblocksPayloadV1 encode now state payload).2.state =
        (if self.forwards payload then (publish encode now state payload).1 else state) ∧
      (self.handleFlashblocksPayloadV1 encode now state payload).2.sent =
        (if self.forwards payload then (publish encode now state payload).2 else []) := by
  rcases handle_cases encode now self state payload with
    ⟨hindex, heq⟩ | ⟨hindex, hseen, heq⟩ | ⟨hindex, hnew, heq⟩
  · have hstops : ¬self.forwards payload := fun h => by
      have hrange := ((forwards_iff self payload).mp h).1
      omega
    simp [heq, hstops]
  · have hstops : ¬self.forwards payload := fun h => ((forwards_iff self payload).mp h).2 hseen
    simp [heq, hstops]
  · have hpasses : self.forwards payload := (forwards_iff self payload).mpr ⟨hindex, hnew⟩
    simp [heq, hpasses]

theorem handle_marked (encode : FlashblocksPayload → Bytes) (now : Int)
    (self : FlashblocksConnection) (state : FlashblocksP2PState) (payload : FlashblocksPayload)
    (key : PayloadId × Nat) :
    (self.handleFlashblocksPayloadV1 encode now state payload).1.Marked key ↔
      (key = payloadKey payload ∧ payload.index.toNat ≤ maxFlashblockIndex) ∨
        payload.payloadId = key.1 ∧ self.Marked key := by
  rcases handle_cases encode now self state payload with
    ⟨hindex, heq⟩ | ⟨hindex, hseen, heq⟩ | ⟨hindex, _, heq⟩
  · have hout : ¬payload.index.toNat ≤ maxFlashblockIndex := by omega
    simp [heq, marked_trackPayload, hout]
  · rw [heq, marked_tracked]
    constructor
    · exact .inr
    · rintro (⟨rfl, _⟩ | h)
      · exact ⟨rfl, hseen⟩
      · exact h
  · simp [heq, marked_mark_tracked, hindex]

theorem handle_reputationChange (encode : FlashblocksPayload → Bytes) (now : Int)
    (self : FlashblocksConnection) (state : FlashblocksP2PState) (payload : FlashblocksPayload) :
    (self.handleFlashblocksPayloadV1 encode now state payload).2.reputationChange =
        some .alreadySeenTransaction ↔
      payload.index.toNat ≤ maxFlashblockIndex ∧ self.Marked (payloadKey payload) := by
  rcases handle_cases encode now self state payload with
    ⟨hindex, heq⟩ | ⟨hindex, hseen, heq⟩ | ⟨_, hnew, heq⟩
  · have hout : ¬payload.index.toNat ≤ maxFlashblockIndex := by omega
    simp [heq, hout]
  · simp [heq, hindex, hseen]
  · simp [heq, hnew]

theorem handle_marks (encode : FlashblocksPayload → Bytes) (now : Int)
    (self : FlashblocksConnection) (state : FlashblocksP2PState) (payload : FlashblocksPayload) :
    (¬self.Marked (payloadKey payload) →
        (self.handleFlashblocksPayloadV1 encode now state payload).2.reputationChange = none) ∧
      ∀ key, (self.handleFlashblocksPayloadV1 encode now state payload).1.Marked key →
        key = payloadKey payload ∨ self.Marked key := by
  constructor
  · intro hnot
    rcases handle_cases encode now self state payload with ⟨_, heq⟩ | ⟨_, hseen, _⟩ | ⟨_, _, heq⟩
    · rw [heq]
    · exact absurd hseen hnot
    · rw [heq]
  · intro key hkey
    rcases (handle_marked encode now self state payload key).mp hkey with ⟨heq, _⟩ | ⟨_, hold⟩
    · exact .inl heq
    · exact .inr hold

end WorldChain.P2p.Connection
