import WorldChain.Library.ReorderBuffer
import WorldChain.Library.Runs
import WorldChain.Wire.Primitives

/-! `FlashblocksP2PCtx::publish`: one mutex-protected ordering state for the
whole node, and the two broadcast channels it feeds. -/
namespace WorldChain.P2p.Publish
open Library Library.ReorderBuffer Wire.Primitives

def maxFrame : Nat := 1 <<< 24

/-- A sanity bound: the buffer is resized by indices that peers choose. -/
def maxFlashblockIndex : Nat := 100

inductive PeerMsg
  | flashblocksPayloadV1 (payloadId : PayloadId) (index : Nat) (bytes : Bytes)
  deriving DecidableEq

def PeerMsg.key : PeerMsg → PayloadId × Nat
  | .flashblocksPayloadV1 payloadId index _ => (payloadId, index)

def payloadKey (payload : FlashblocksPayload) : PayloadId × Nat :=
  (payload.payloadId, payload.index.toNat)

structure FlashblocksP2PState where
  payloadId : PayloadId := 0
  payloadTimestamp : UInt64 := 0
  flashblockTimestamp : Int := 0
  /-- The index of the next flashblock to emit. -/
  flashblockIndex : Nat := 0
  /-- Flashblocks of the current payload, by sequence number. -/
  flashblocks : Buffer FlashblocksPayload := []
  deriving DecidableEq

inductive Sent
  | peerTx (msg : PeerMsg)
  | flashblockTx (payload : FlashblocksPayload)
  deriving DecidableEq

def peerTx (sent : List Sent) : List PeerMsg :=
  sent.filterMap fun
    | .peerTx msg => some msg
    | .flashblockTx _ => none

def flashblockTx (sent : List Sent) : List FlashblocksPayload :=
  sent.filterMap fun
    | .peerTx _ => none
    | .flashblockTx payload => some payload

@[simp] theorem peerTx_nil : peerTx [] = [] := rfl
@[simp] theorem flashblockTx_nil : flashblockTx [] = [] := rfl

@[simp] theorem peerTx_append (left right : List Sent) :
    peerTx (left ++ right) = peerTx left ++ peerTx right := by
  simp [peerTx]

@[simp] theorem flashblockTx_append (left right : List Sent) :
    flashblockTx (left ++ right) = flashblockTx left ++ flashblockTx right := by
  simp [flashblockTx]

@[simp] theorem peerTx_cons_peer (msg : PeerMsg) (rest : List Sent) :
    peerTx (.peerTx msg :: rest) = msg :: peerTx rest := rfl

@[simp] theorem flashblockTx_cons_peer (msg : PeerMsg) (rest : List Sent) :
    flashblockTx (.peerTx msg :: rest) = flashblockTx rest := rfl

@[simp] theorem peerTx_map_flashblock (payloads : List FlashblocksPayload) :
    peerTx (payloads.map .flashblockTx) = [] := by
  simp [peerTx]

@[simp] theorem flashblockTx_map_flashblock (payloads : List FlashblocksPayload) :
    flashblockTx (payloads.map .flashblockTx) = payloads := by
  simp [flashblockTx]

def asU64 (value : Int) : UInt64 := .ofInt value

/-- Step 1: any other payload id makes the state start over. -/
def FlashblocksP2PState.resetFor (state : FlashblocksP2PState)
    (payload : FlashblocksPayload) : FlashblocksP2PState :=
  if payload.payloadId ≠ state.payloadId then
    { state with
      payloadId := payload.payloadId
      payloadTimestamp := asU64 (payload.metadata.flashblockTimestamp.getD 0)
      flashblockIndex := 0
      flashblocks := blank state.flashblocks }
  else state

/-- Steps 2 and 3: make room for the index, then cache the flashblock. -/
def FlashblocksP2PState.resizeFor (state : FlashblocksP2PState) (index : Nat) :
    FlashblocksP2PState :=
  { state with flashblocks := resize state.flashblocks (index + 1) }

def FlashblocksP2PState.cache (state : FlashblocksP2PState) (index : Nat)
    (payload : FlashblocksPayload) : FlashblocksP2PState :=
  { state with flashblocks := state.flashblocks.set index (some payload) }

/-- The `while let` loop of step 5, with a bound on its rounds. -/
def emitLoop (now : Int) :
    Nat → FlashblocksP2PState → FlashblocksP2PState × List FlashblocksPayload
  | 0, state => (state, [])
  | fuel + 1, state =>
      match state.flashblocks[state.flashblockIndex]? with
      | some (some event) =>
          let rest := emitLoop now fuel
            { state with
              flashblockTimestamp := now
              flashblockIndex := state.flashblockIndex + 1 }
          (rest.1, event :: rest.2)
      | _ => (state, [])

/-- Step 5: the cursor passes each slot at most once, so the slots beyond it
bound the rounds. -/
def emitReady (now : Int) (state : FlashblocksP2PState) :
    FlashblocksP2PState × List FlashblocksPayload :=
  emitLoop now (state.flashblocks.length - state.flashblockIndex) state

/-- `FlashblocksP2PCtx::publish`; `encode` is the message encoder and `now` the
clock read during the call. -/
def publish (encode : FlashblocksPayload → Bytes) (now : Int) (state : FlashblocksP2PState)
    (payload : FlashblocksPayload) : FlashblocksP2PState × List Sent :=
  let index := payload.index.toNat
  let state := state.resetFor payload
  if maxFlashblockIndex < index then (state, [])
  else
    let state := state.resizeFor index
    if (slot state.flashblocks index).isSome then (state, [])
    else
      -- the flashblock is cached before its size is known
      let state := state.cache index payload
      let bytes := encode payload
      if maxFrame < bytes.length then (state, [])
      else
        let emitted := emitReady now state
        (emitted.1, .peerTx (.flashblocksPayloadV1 payload.payloadId index bytes) ::
          emitted.2.map .flashblockTx)

def FlashblocksP2PState.ready (state : FlashblocksP2PState) : List FlashblocksPayload :=
  filledPrefix (state.flashblocks.drop state.flashblockIndex)

def FlashblocksP2PState.advance (state : FlashblocksP2PState) (now : Int) (n : Nat) :
    FlashblocksP2PState :=
  { state with
    flashblockTimestamp := if n = 0 then state.flashblockTimestamp else now
    flashblockIndex := state.flashblockIndex + n }

theorem ready_of_some {state : FlashblocksP2PState} {event : FlashblocksPayload}
    (h : state.flashblocks[state.flashblockIndex]? = some (some event)) (now : Int) :
    state.ready = event :: (state.advance now 1).ready := by
  obtain ⟨hlt, hget⟩ := List.getElem?_eq_some_iff.mp h
  unfold FlashblocksP2PState.ready FlashblocksP2PState.advance
  rw [List.drop_eq_getElem_cons hlt, hget]
  rfl

theorem ready_of_not_some {state : FlashblocksP2PState}
    (h : ∀ event, state.flashblocks[state.flashblockIndex]? ≠ some (some event)) :
    state.ready = [] := by
  unfold FlashblocksP2PState.ready
  by_cases hlt : state.flashblockIndex < state.flashblocks.length
  · rw [List.drop_eq_getElem_cons hlt]
    cases hget : state.flashblocks[state.flashblockIndex] with
    | none => rfl
    | some event => exact absurd (by rw [List.getElem?_eq_getElem hlt, hget]) (h event)
  · rw [List.drop_eq_nil_of_le (by omega)]
    rfl

theorem emitLoop_eq (now : Int) (fuel : Nat) (state : FlashblocksP2PState)
    (hfuel : state.flashblocks.length - state.flashblockIndex ≤ fuel) :
    emitLoop now fuel state = (state.advance now state.ready.length, state.ready) := by
  induction fuel generalizing state with
  | zero =>
      have hready : state.ready = [] := by
        unfold FlashblocksP2PState.ready
        rw [List.drop_eq_nil_of_le (by omega)]
        rfl
      rw [hready]
      rfl
  | succ fuel ih =>
      unfold emitLoop
      split
      · rename_i event hevent
        have hstep : emitLoop now fuel (state.advance now 1) =
            ((state.advance now 1).advance now (state.advance now 1).ready.length,
              (state.advance now 1).ready) := by
          apply ih
          simp only [FlashblocksP2PState.advance]
          omega
        simp only [FlashblocksP2PState.advance, Nat.one_ne_zero, ↓reduceIte] at hstep
        rw [ready_of_some hevent now, hstep]
        simp only [FlashblocksP2PState.advance, ↓reduceIte, List.length_cons, Nat.succ_ne_zero,
          ite_self, Nat.add_assoc, Nat.add_comm 1]
      · rename_i hnone
        rw [ready_of_not_some fun event hevent => hnone event hevent]
        rfl

/-- The loop emits exactly the filled slots from the cursor to the next gap. -/
theorem emitReady_eq (now : Int) (state : FlashblocksP2PState) :
    emitReady now state = (state.advance now state.ready.length, state.ready) :=
  emitLoop_eq now _ state (Nat.le_refl _)

def FlashblocksP2PState.cached (state : FlashblocksP2PState)
    (payload : FlashblocksPayload) : FlashblocksP2PState :=
  ((state.resetFor payload).resizeFor payload.index.toNat).cache payload.index.toNat payload

/-- Everything a call can do: reject the index, find the slot taken, cache a
message that is too large, or cache, gossip and emit. -/
theorem publish_cases (encode : FlashblocksPayload → Bytes) (now : Int)
    (state : FlashblocksP2PState) (payload : FlashblocksPayload) :
    (maxFlashblockIndex < payload.index.toNat ∧
      publish encode now state payload = (state.resetFor payload, [])) ∨
    (payload.index.toNat ≤ maxFlashblockIndex ∧
      (slot (state.resetFor payload).flashblocks payload.index.toNat).isSome ∧
      publish encode now state payload =
        ((state.resetFor payload).resizeFor payload.index.toNat, [])) ∨
    (payload.index.toNat ≤ maxFlashblockIndex ∧
      slot (state.resetFor payload).flashblocks payload.index.toNat = none ∧
      maxFrame < (encode payload).length ∧
      publish encode now state payload = (state.cached payload, [])) ∨
    (payload.index.toNat ≤ maxFlashblockIndex ∧
      slot (state.resetFor payload).flashblocks payload.index.toNat = none ∧
      (encode payload).length ≤ maxFrame ∧
      publish encode now state payload =
        ((state.cached payload).advance now (state.cached payload).ready.length,
          .peerTx (.flashblocksPayloadV1 payload.payloadId payload.index.toNat (encode payload)) ::
            (state.cached payload).ready.map .flashblockTx)) := by
  by_cases hindex : maxFlashblockIndex < payload.index.toNat
  · exact .inl ⟨hindex, by simp only [publish, hindex, ↓reduceIte]⟩
  have hslot : slot ((state.resetFor payload).resizeFor payload.index.toNat).flashblocks
      payload.index.toNat = slot (state.resetFor payload).flashblocks payload.index.toNat :=
    slot_resize _ _ _
  cases hfull : slot (state.resetFor payload).flashblocks payload.index.toNat with
  | some other =>
      refine .inr (.inl ⟨Nat.le_of_not_lt hindex, rfl, ?_⟩)
      simp only [publish, hindex, ↓reduceIte, hslot, hfull, Option.isSome_some]
  | none =>
      by_cases hframe : maxFrame < (encode payload).length
      · refine .inr (.inr (.inl ⟨Nat.le_of_not_lt hindex, rfl, hframe, ?_⟩))
        simp only [publish, hindex, ↓reduceIte, hslot, hfull, Option.isSome_none,
          Bool.false_eq_true, hframe, FlashblocksP2PState.cached]
      · refine .inr (.inr (.inr ⟨Nat.le_of_not_lt hindex, rfl, Nat.le_of_not_lt hframe, ?_⟩))
        simp only [publish, hindex, ↓reduceIte, hslot, hfull, Option.isSome_none,
          Bool.false_eq_true, hframe, emitReady_eq, FlashblocksP2PState.cached]

@[simp] theorem resetFor_payloadId (state : FlashblocksP2PState)
    (payload : FlashblocksPayload) : (state.resetFor payload).payloadId = payload.payloadId := by
  unfold FlashblocksP2PState.resetFor
  split
  · rfl
  · rename_i hid
    exact (not_not.mp hid).symm

theorem resetFor_of_eq {state : FlashblocksP2PState} {payload : FlashblocksPayload}
    (h : payload.payloadId = state.payloadId) : state.resetFor payload = state := by
  simp [FlashblocksP2PState.resetFor, h]

theorem resetFor_of_ne {state : FlashblocksP2PState} {payload : FlashblocksPayload}
    (h : payload.payloadId ≠ state.payloadId) :
    (state.resetFor payload).flashblockIndex = 0 ∧
      (state.resetFor payload).flashblocks = blank state.flashblocks := by
  simp [FlashblocksP2PState.resetFor, h]

@[simp] theorem resetFor_flashblockTimestamp (state : FlashblocksP2PState)
    (payload : FlashblocksPayload) :
    (state.resetFor payload).flashblockTimestamp = state.flashblockTimestamp := by
  unfold FlashblocksP2PState.resetFor
  split <;> rfl

theorem length_resetFor (state : FlashblocksP2PState) (payload : FlashblocksPayload) :
    (state.resetFor payload).flashblocks.length = state.flashblocks.length := by
  unfold FlashblocksP2PState.resetFor
  split
  · exact length_blank _
  · rfl

@[simp] theorem resizeFor_payloadId (state : FlashblocksP2PState) (index : Nat) :
    (state.resizeFor index).payloadId = state.payloadId := rfl

@[simp] theorem resizeFor_flashblockIndex (state : FlashblocksP2PState) (index : Nat) :
    (state.resizeFor index).flashblockIndex = state.flashblockIndex := rfl

@[simp] theorem slot_resizeFor (state : FlashblocksP2PState) (index i : Nat) :
    slot (state.resizeFor index).flashblocks i = slot state.flashblocks i :=
  slot_resize _ _ _

@[simp] theorem cached_payloadId (state : FlashblocksP2PState)
    (payload : FlashblocksPayload) : (state.cached payload).payloadId = payload.payloadId :=
  resetFor_payloadId state payload

@[simp] theorem cached_flashblockIndex (state : FlashblocksP2PState)
    (payload : FlashblocksPayload) :
    (state.cached payload).flashblockIndex = (state.resetFor payload).flashblockIndex := rfl

theorem slot_cached (state : FlashblocksP2PState) (payload : FlashblocksPayload) (i : Nat) :
    slot (state.cached payload).flashblocks i =
      if i = payload.index.toNat then some payload
      else slot (state.resetFor payload).flashblocks i := by
  unfold FlashblocksP2PState.cached FlashblocksP2PState.cache
  rw [slot_set]
  · simp
  · simp only [FlashblocksP2PState.resizeFor, length_resize]
    omega

theorem length_cached (state : FlashblocksP2PState) (payload : FlashblocksPayload) :
    (state.cached payload).flashblocks.length =
      max state.flashblocks.length (payload.index.toNat + 1) := by
  simp only [FlashblocksP2PState.cached, FlashblocksP2PState.cache, FlashblocksP2PState.resizeFor,
    List.length_set, length_resize, length_resetFor]

@[simp] theorem advance_payloadId (state : FlashblocksP2PState) (now : Int) (n : Nat) :
    (state.advance now n).payloadId = state.payloadId := rfl

@[simp] theorem advance_flashblocks (state : FlashblocksP2PState) (now : Int) (n : Nat) :
    (state.advance now n).flashblocks = state.flashblocks := rfl

@[simp] theorem advance_flashblockIndex (state : FlashblocksP2PState) (now : Int) (n : Nat) :
    (state.advance now n).flashblockIndex = state.flashblockIndex + n := rfl

@[simp] theorem publish_payloadId (encode : FlashblocksPayload → Bytes) (now : Int)
    (state : FlashblocksP2PState) (payload : FlashblocksPayload) :
    (publish encode now state payload).1.payloadId = payload.payloadId := by
  rcases publish_cases encode now state payload with
    ⟨_, h⟩ | ⟨_, _, h⟩ | ⟨_, _, _, h⟩ | ⟨_, _, _, h⟩ <;> simp [h]

theorem publish_resetFor (encode : FlashblocksPayload → Bytes) (now : Int)
    (state : FlashblocksP2PState) (payload : FlashblocksPayload) :
    publish encode now (state.resetFor payload) payload = publish encode now state payload := by
  have hreset : (state.resetFor payload).resetFor payload = state.resetFor payload :=
    resetFor_of_eq (resetFor_payloadId state payload).symm
  simp only [publish, hreset]

end WorldChain.P2p.Publish
