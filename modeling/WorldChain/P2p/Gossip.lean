import Mathlib.Data.List.Nodup
import Mathlib.Data.List.Range
import WorldChain.P2p.Connection

/-! A node: the ordering state, shared by the local publisher and by any number
of peer connections whose messages arrive in any order. -/
namespace WorldChain.P2p.Gossip
open Library Library.ReorderBuffer Library.Runs
open Wire.Primitives Publish OrderedState Connection

structure Node where
  state : FlashblocksP2PState := {}
  connections : Nat → FlashblocksConnection := fun _ => {}

/-- The lock makes each handler atomic; `now` is the clock it reads. -/
inductive Event
  | publishNew (now : Int) (payload : FlashblocksPayload)
  | message (peer : Nat) (now : Int) (payload : FlashblocksPayload)
  | connect (peer : Nat)

def Node.setConnection (node : Node) (peer : Nat) (connection : FlashblocksConnection) : Node :=
  { node with connections := Function.update node.connections peer connection }

def Node.step (encode : FlashblocksPayload → Bytes) (node : Node) : Event → Node × List Sent
  | .publishNew now payload =>
      let published := publish encode now node.state payload
      ({ node with state := published.1 }, published.2)
  | .message peer now payload =>
      let handled := (node.connections peer).handleFlashblocksPayloadV1 encode now node.state payload
      ({ node with state := handled.2.state }.setConnection peer handled.1, handled.2.sent)
  | .connect peer => (node.setConnection peer {}, [])

def Node.published (node : Node) : Event → Option (Int × FlashblocksPayload)
  | .publishNew now payload => some (now, payload)
  | .message peer now payload =>
      if (node.connections peer).forwards payload then some (now, payload) else none
  | .connect _ => none

/-- Whatever the event, the ordering state changes by one `publish` or not at all. -/
theorem step_cases (encode : FlashblocksPayload → Bytes) (node : Node) (event : Event) :
    match node.published event with
    | some (now, payload) =>
        (node.step encode event).1.state = (publish encode now node.state payload).1 ∧
          (node.step encode event).2 = (publish encode now node.state payload).2
    | none => (node.step encode event).1.state = node.state ∧ (node.step encode event).2 = [] := by
  cases event with
  | publishNew now payload => exact ⟨rfl, rfl⟩
  | connect peer => exact ⟨rfl, rfl⟩
  | message peer now payload =>
      have h := handle_state encode now (node.connections peer) node.state payload
      unfold Node.published
      by_cases hforwards : (node.connections peer).forwards payload
      · simp only [hforwards, ↓reduceIte] at h ⊢
        exact h
      · simp only [hforwards, Bool.false_eq_true, ↓reduceIte] at h ⊢
        exact h

def emittedKeys (sent : List Sent) : List (PayloadId × Nat) := (flashblockTx sent).map payloadKey

def gossipedKeys (sent : List Sent) : List (PayloadId × Nat) := (peerTx sent).map PeerMsg.key

@[simp] theorem emittedKeys_append (left right : List Sent) :
    emittedKeys (left ++ right) = emittedKeys left ++ emittedKeys right := by
  simp [emittedKeys]

@[simp] theorem gossipedKeys_append (left right : List Sent) :
    gossipedKeys (left ++ right) = gossipedKeys left ++ gossipedKeys right := by
  simp [gossipedKeys]

structure AtMostOnce (sent : List Sent) : Prop where
  emitted : (emittedKeys sent).Nodup
  gossiped : (gossipedKeys sent).Nodup

/-- A flashblock of another payload than the current one is published only
while nothing of its payload has been sent. -/
def SwitchesToUnsent (r : Node × List Sent) (event : Event) : Prop :=
  ∀ call ∈ r.1.published event, call.2.payloadId ≠ r.1.state.payloadId →
    ∀ key ∈ emittedKeys r.2 ++ gossipedKeys r.2, key.1 ≠ call.2.payloadId

instance (r : Node × List Sent) (event : Event) : Decidable (SwitchesToUnsent r event) :=
  inferInstanceAs (Decidable (∀ call ∈ r.1.published event,
    call.2.payloadId ≠ r.1.state.payloadId →
      ∀ key ∈ emittedKeys r.2 ++ gossipedKeys r.2, key.1 ≠ call.2.payloadId))

/-- Of the current payload, what was emitted lies before the cursor and what
was gossiped lies in a filled slot. -/
structure SentOnce (state : FlashblocksP2PState) (sent : List Sent) : Prop where
  ordered : Ordered state
  once : AtMostOnce sent
  emitted : ∀ i, (state.payloadId, i) ∈ emittedKeys sent → i < state.flashblockIndex
  gossiped : ∀ i, (state.payloadId, i) ∈ gossipedKeys sent → (slot state.flashblocks i).isSome

theorem SentOnce.resetFor {state : FlashblocksP2PState} {sent : List Sent}
    (h : SentOnce state sent) {payload : FlashblocksPayload}
    (hunsent : payload.payloadId ≠ state.payloadId →
      ∀ key ∈ emittedKeys sent ++ gossipedKeys sent, key.1 ≠ payload.payloadId) :
    SentOnce (state.resetFor payload) sent := by
  by_cases hid : payload.payloadId = state.payloadId
  · rwa [resetFor_of_eq hid]
  · have hnone := hunsent hid
    refine ⟨h.ordered.resetFor payload, h.once, ?_, ?_⟩
    · intro i hi
      rw [resetFor_payloadId] at hi
      exact absurd rfl (hnone _ (List.mem_append_left _ hi))
    · intro i hi
      rw [resetFor_payloadId] at hi
      exact absurd rfl (hnone _ (List.mem_append_right _ hi))

theorem emittedKeys_cached {state : FlashblocksP2PState} (h : Ordered state)
    {payload : FlashblocksPayload} (hid : payload.payloadId = state.payloadId)
    (hempty : slot state.flashblocks payload.index.toNat = none) (msg : PeerMsg) :
    emittedKeys (.peerTx msg :: (state.cached payload).ready.map .flashblockTx) =
      (List.range' state.flashblockIndex (state.cached payload).ready.length).map
        (state.payloadId, ·) := by
  have hreset := resetFor_of_eq hid
  have hkeys := (h.cached payload (by rwa [hreset])).ready_keys
  simpa [emittedKeys, hreset, hid] using hkeys

theorem gossipedKeys_cached {state : FlashblocksP2PState} {payload : FlashblocksPayload}
    (hid : payload.payloadId = state.payloadId) (bytes : Bytes) :
    gossipedKeys (.peerTx (.flashblocksPayloadV1 payload.payloadId payload.index.toNat bytes) ::
        (state.cached payload).ready.map .flashblockTx) =
      [(state.payloadId, payload.index.toNat)] := by
  simp [gossipedKeys, PeerMsg.key, hid]

theorem SentOnce.send {state : FlashblocksP2PState} {sent : List Sent} (h : SentOnce state sent)
    {payload : FlashblocksPayload} (hid : payload.payloadId = state.payloadId)
    (hempty : slot state.flashblocks payload.index.toNat = none) (bytes : Bytes) (now : Int) :
    SentOnce ((state.cached payload).advance now (state.cached payload).ready.length)
      (sent ++ .peerTx (.flashblocksPayloadV1 payload.payloadId payload.index.toNat bytes) ::
        (state.cached payload).ready.map .flashblockTx) := by
  have hreset := resetFor_of_eq hid
  have hemitted := emittedKeys_cached h.ordered hid hempty
    (.flashblocksPayloadV1 payload.payloadId payload.index.toNat bytes)
  have hgossiped := gossipedKeys_cached hid bytes
  refine ⟨(h.ordered.cached payload (by rwa [hreset])).advance now, ⟨?_, ?_⟩, ?_, ?_⟩
  · rw [emittedKeys_append, hemitted]
    apply List.nodup_append.mpr
    refine ⟨h.once.emitted, List.Nodup.map (fun a b hab => (Prod.mk.inj hab).2) List.nodup_range', ?_⟩
    rintro key hold key' hnew rfl
    obtain ⟨i, hi, rfl⟩ := List.mem_map.mp hnew
    have hlt := h.emitted i hold
    have hrange := List.mem_range'_1.mp hi
    omega
  · rw [gossipedKeys_append, hgossiped]
    apply List.nodup_append.mpr
    refine ⟨h.once.gossiped, List.nodup_singleton _, ?_⟩
    rintro key hold key' hnew rfl
    rw [List.mem_singleton.mp hnew] at hold
    have hfull := h.gossiped _ hold
    simp [hempty] at hfull
  · intro i hi
    rw [advance_payloadId, cached_payloadId, emittedKeys_append, hemitted, hid,
      List.mem_append] at hi
    rw [advance_flashblockIndex, cached_flashblockIndex, hreset]
    rcases hi with hold | hnew
    · have hlt := h.emitted i hold
      omega
    · obtain ⟨j, hj, heq⟩ := List.mem_map.mp hnew
      have hrange := List.mem_range'_1.mp hj
      have hji : j = i := congrArg Prod.snd heq
      omega
  · intro i hi
    rw [advance_payloadId, cached_payloadId, gossipedKeys_append, hgossiped, hid,
      List.mem_append, List.mem_singleton] at hi
    rw [advance_flashblocks, slot_cached, hreset]
    split
    · rfl
    · rename_i hne
      exact h.gossiped i (hi.resolve_right fun heq => hne (congrArg Prod.snd heq))

/-- The step lemma: what a call does after the reset. -/
theorem SentOnce.publish_same {state : FlashblocksP2PState} {sent : List Sent}
    (h : SentOnce state sent) {payload : FlashblocksPayload}
    (hid : payload.payloadId = state.payloadId) (encode : FlashblocksPayload → Bytes) (now : Int) :
    SentOnce (publish encode now state payload).1
      (sent ++ (publish encode now state payload).2) := by
  have hreset := resetFor_of_eq hid
  have hordered := h.ordered.publish encode now payload
  rcases publish_cases encode now state payload with
    ⟨_, heq⟩ | ⟨_, _, heq⟩ | ⟨_, hempty, _, heq⟩ | ⟨_, hempty, _, heq⟩
  · rw [heq, hreset]
    simpa using h
  · rw [heq, hreset] at hordered ⊢
    refine ⟨hordered, by simpa using h.once, by simpa using h.emitted, by simpa using h.gossiped⟩
  · rw [heq] at hordered ⊢
    refine ⟨hordered, by simpa using h.once, ?_, ?_⟩
    · simpa [hreset, hid] using h.emitted
    · intro i hi
      rw [slot_cached, hreset]
      split
      · rfl
      · exact h.gossiped i (by simpa [hid] using hi)
  · rw [heq]
    rw [hreset] at hempty
    exact h.send hid hempty (encode payload) now

theorem SentOnce.publish {state : FlashblocksP2PState} {sent : List Sent}
    (h : SentOnce state sent) {payload : FlashblocksPayload}
    (hunsent : payload.payloadId ≠ state.payloadId →
      ∀ key ∈ emittedKeys sent ++ gossipedKeys sent, key.1 ≠ payload.payloadId)
    (encode : FlashblocksPayload → Bytes) (now : Int) :
    SentOnce (publish encode now state payload).1
      (sent ++ (publish encode now state payload).2) := by
  have hreset := (h.resetFor hunsent).publish_same (resetFor_payloadId state payload).symm encode now
  rwa [publish_resetFor] at hreset

theorem sentOnce_start : SentOnce {} [] := by
  refine ⟨ordered_default, ⟨by simp [emittedKeys], by simp [gossipedKeys]⟩, ?_, ?_⟩
  · intro i hi
    simp [emittedKeys] at hi
  · intro i hi
    simp [gossipedKeys] at hi

/-- Each flashblock goes out at most once on either channel in every run that
never returns to a payload of which something has been sent. -/
theorem at_most_once (encode : FlashblocksPayload → Bytes) (events : List Event)
    (hmeets : Meets (Node.step encode) SwitchesToUnsent {} events) :
    AtMostOnce (exec (Node.step encode) {} events).2 := by
  have hstep : ∀ (r : Node × List Sent) (event : Event), SentOnce r.1.state r.2 →
      SwitchesToUnsent r event →
        SentOnce (r.1.step encode event).1.state (r.2 ++ (r.1.step encode event).2) := by
    intro r event hr hcond
    have hcases := step_cases encode r.1 event
    cases hpublished : r.1.published event with
    | none =>
        rw [hpublished] at hcases
        rw [hcases.1, hcases.2, List.append_nil]
        exact hr
    | some call =>
        rw [hpublished] at hcases
        rw [hcases.1, hcases.2]
        exact hr.publish (hcond call hpublished) encode call.1
  exact (exec_invariant (fun r => SentOnce r.1.state r.2) sentOnce_start hstep hmeets).once

theorem at_most_once_two_payloads :
    AtMostOnce (exec (Node.step fun _ => [0]) {}
      [.message 0 20 (.bare 1 1), .publishNew 21 (.bare 1 0), .message 1 22 (.bare 2 0)]).2 := by
  apply at_most_once
  exact .concat (.concat (.concat .nil (by decide)) (by decide)) (by decide)

theorem sent_twice :
    ¬∀ events : List Event, AtMostOnce (exec (Node.step fun _ => [0]) {} events).2 := by
  intro hall
  have h := hall [.message 0 20 (.bare 1 0), .publishNew 21 (.bare 2 0), .message 1 22 (.bare 1 0)]
  exact absurd h.emitted (by decide)

end WorldChain.P2p.Gossip
