import WorldChain.P2p.Gossip
import WorldChain.P2p.Subscriber

/-! What a node keeps within bounds, whatever its peers send. -/
namespace WorldChain.P2p.Bounded
open Library Library.ReorderBuffer Library.Runs
open Wire.Primitives Publish OrderedState Connection Gossip
open Subscriber (Emitted Fits)

/-! The handlers with the panics of `buffer[index]`: the result is `none` where
an access is out of range. -/

def store {α : Type} (buffer : List α) (index : Nat) (value : α) : Option (List α) :=
  if index < buffer.length then some (buffer.set index value) else none

variable (encode : FlashblocksPayload → Bytes)

def publishChecked (now : Int) (state : FlashblocksP2PState) (payload : FlashblocksPayload) :
    Option (FlashblocksP2PState × List Sent) :=
  let index := payload.index.toNat
  let state := state.resetFor payload
  if maxFlashblockIndex < index then some (state, [])
  else
    let state := state.resizeFor index
    do
      let seen ← state.flashblocks[index]?
      if seen.isSome then return (state, [])
      let flashblocks ← store state.flashblocks index (some payload)
      let state := { state with flashblocks := flashblocks }
      let bytes := encode payload
      if maxFrame < bytes.length then return (state, [])
      let emitted := emitReady now state
      return (emitted.1, .peerTx (.flashblocksPayloadV1 payload.payloadId index bytes) ::
        emitted.2.map .flashblockTx)

def handleChecked (now : Int) (self : FlashblocksConnection) (state : FlashblocksP2PState)
    (payload : FlashblocksPayload) : Option (FlashblocksConnection × Handled) :=
  let index := payload.index.toNat
  let self := self.trackPayload payload
  if maxFlashblockIndex < index then some (self, { state })
  else
    let self := self.resizeFor index
    do
      let seen ← self.received[index]?
      if seen then return (self, { state, reputationChange := some .alreadySeenTransaction })
      let received ← store self.received index true
      let published ← publishChecked encode now state payload
      return ({ self with received := received }, { state := published.1, sent := published.2 })

def stepChecked (node : Node) : Event → Option (Node × List Sent)
  | .publishNew now payload => do
      let published ← publishChecked encode now node.state payload
      return ({ node with state := published.1 }, published.2)
  | .message peer now payload => do
      let handled ← handleChecked encode now (node.connections peer) node.state payload
      return ({ node with state := handled.2.state }.setConnection peer handled.1, handled.2.sent)
  | .connect peer => some (node.setConnection peer {}, [])

def runChecked (node : Node) : List Event → Option (Node × List Sent)
  | [] => some (node, [])
  | event :: rest => do
      let next ← stepChecked encode node event
      let last ← runChecked next.1 rest
      return (last.1, next.2 ++ last.2)

structure WithinBounds (node : Node) : Prop where
  flashblocks : node.state.flashblocks.length ≤ maxFlashblockIndex + 1
  received : ∀ peer, (node.connections peer).received.length ≤ maxFlashblockIndex + 1
  slots : ∀ i payload, slot node.state.flashblocks i = some payload →
    payload.index.toNat = i ∧ payload.payloadId = node.state.payloadId
  cursor : node.state.flashblockIndex ≤ node.state.flashblocks.length
  filled : ∀ i < node.state.flashblockIndex, (slot node.state.flashblocks i).isSome

def carried : Event → Option FlashblocksPayload
  | .publishNew _ payload | .message _ _ payload => some payload
  | .connect _ => none

variable {encode}

theorem store_eq {α : Type} {buffer : List α} {index : Nat} (h : index < buffer.length) (value : α) :
    store buffer index value = some (buffer.set index value) := if_pos h

theorem publishChecked_eq (now : Int) (state : FlashblocksP2PState) (payload : FlashblocksPayload) :
    publishChecked encode now state payload = some (publish encode now state payload) := by
  unfold publishChecked publish
  by_cases hindex : maxFlashblockIndex < payload.index.toNat
  · simp only [if_pos hindex]
  · have hlt : payload.index.toNat <
        ((state.resetFor payload).resizeFor payload.index.toNat).flashblocks.length := by
      rw [FlashblocksP2PState.resizeFor, length_resize]
      omega
    simp only [if_neg hindex, List.getElem?_eq_getElem hlt, Option.bind_eq_bind, Option.bind_some,
      store_eq hlt, slot, Option.join_some, FlashblocksP2PState.cache]
    split
    · rfl
    · split <;> rfl

theorem handleChecked_eq (now : Int) (self : FlashblocksConnection) (state : FlashblocksP2PState)
    (payload : FlashblocksPayload) :
    handleChecked encode now self state payload =
      some (self.handleFlashblocksPayloadV1 encode now state payload) := by
  unfold handleChecked FlashblocksConnection.handleFlashblocksPayloadV1
  by_cases hindex : maxFlashblockIndex < payload.index.toNat
  · simp only [if_pos hindex]
  · have hlt : payload.index.toNat <
        ((self.trackPayload payload).resizeFor payload.index.toNat).received.length := by
      rw [length_resizeFor]
      omega
    simp only [if_neg hindex, List.getElem?_eq_getElem hlt, Option.bind_eq_bind, Option.bind_some,
      store_eq hlt, publishChecked_eq, Option.some.injEq, FlashblocksConnection.mark]
    split <;> rfl

theorem stepChecked_eq (node : Node) (event : Event) :
    stepChecked encode node event = some (node.step encode event) := by
  cases event with
  | publishNew now payload => simp [stepChecked, publishChecked_eq, Node.step]
  | message peer now payload => simp [stepChecked, handleChecked_eq, Node.step]
  | connect peer => rfl

theorem runChecked_eq (node : Node) (events : List Event) :
    runChecked encode node events = some (exec (Node.step encode) node events) := by
  induction events generalizing node with
  | nil => rfl
  | cons event rest ih => simp [runChecked, stepChecked_eq, ih, exec_cons]

/-! How far the buffers grow. -/

theorem length_publish {state : FlashblocksP2PState}
    (h : state.flashblocks.length ≤ maxFlashblockIndex + 1) (now : Int)
    (payload : FlashblocksPayload) :
    (publish encode now state payload).1.flashblocks.length ≤ maxFlashblockIndex + 1 := by
  have hreset := length_resetFor state payload
  have hcached := length_cached state payload
  rcases publish_cases encode now state payload with
    ⟨_, heq⟩ | ⟨_, _, heq⟩ | ⟨_, _, _, heq⟩ | ⟨_, _, _, heq⟩
  all_goals
    rw [heq]
    dsimp only
  · omega
  · rw [FlashblocksP2PState.resizeFor, length_resize]
    omega
  · omega
  · rw [advance_flashblocks]
    omega

theorem length_handle {self : FlashblocksConnection}
    (h : self.received.length ≤ maxFlashblockIndex + 1) (now : Int) (state : FlashblocksP2PState)
    (payload : FlashblocksPayload) :
    (self.handleFlashblocksPayloadV1 encode now state payload).1.received.length ≤
      maxFlashblockIndex + 1 := by
  have htrack : (self.trackPayload payload).received.length = self.received.length := by
    unfold FlashblocksConnection.trackPayload
    split <;> simp
  have htracked : (self.tracked payload).received.length =
      max self.received.length (payload.index.toNat + 1) := by
    rw [FlashblocksConnection.tracked, length_resizeFor, htrack]
  rcases handle_cases encode now self state payload with
    ⟨_, heq⟩ | ⟨_, _, heq⟩ | ⟨_, _, heq⟩
  all_goals
    rw [heq]
    dsimp only
  · omega
  · omega
  · rw [FlashblocksConnection.mark, List.length_set]
    omega

/-- What every step keeps; `Ordered` and `Emitted` say where the cursor stands. -/
structure Kept (encode : FlashblocksPayload → Bytes) (node : Node) : Prop where
  emitted : ∃ emitted, Emitted encode node.state emitted
  flashblocks : node.state.flashblocks.length ≤ maxFlashblockIndex + 1
  received : ∀ peer, (node.connections peer).received.length ≤ maxFlashblockIndex + 1

theorem Kept.setConnection {node : Node} (h : Kept encode node) (peer : Nat)
    {connection : FlashblocksConnection}
    (hlength : connection.received.length ≤ maxFlashblockIndex + 1) :
    Kept encode (node.setConnection peer connection) := by
  refine ⟨h.emitted, h.flashblocks, ?_⟩
  intro other
  by_cases hother : other = peer
  · subst hother
    simpa [Node.setConnection] using hlength
  · simpa [Node.setConnection, hother] using h.received other

theorem Kept.setState {node : Node} (h : Kept encode node) {state : FlashblocksP2PState}
    (hemitted : ∃ emitted, Emitted encode state emitted)
    (hlength : state.flashblocks.length ≤ maxFlashblockIndex + 1) :
    Kept encode { node with state := state } :=
  ⟨hemitted, hlength, h.received⟩

theorem Kept.publish {node : Node} (h : Kept encode node) (now : Int)
    (payload : FlashblocksPayload) :
    Kept encode { node with state := (publish encode now node.state payload).1 } := by
  obtain ⟨_, hemitted⟩ := h.emitted
  exact h.setState ⟨_, hemitted.publish now payload⟩ (length_publish h.flashblocks now payload)

theorem Kept.step {node : Node} (h : Kept encode node) (event : Event) :
    Kept encode (node.step encode event).1 := by
  cases event with
  | publishNew now payload => exact h.publish now payload
  | connect peer => exact h.setConnection peer (Nat.zero_le _)
  | message peer now payload =>
      have hlength := @length_handle encode _ (h.received peer) now node.state payload
      have hstate := (handle_state encode now (node.connections peer) node.state payload).1
      unfold Node.step
      dsimp only
      rw [hstate]
      split
      · exact (h.publish now payload).setConnection peer hlength
      · exact h.setConnection peer hlength

theorem kept_run (events : List Event) : Kept encode (exec (Node.step encode) {} events).1 := by
  have hstart : Kept encode {} :=
    ⟨⟨[], ordered_default, rfl, fun _ => Nat.le_refl _⟩, Nat.zero_le _, fun _ => Nat.zero_le _⟩
  exact reachable_invariant hstart (fun _ event h => h.step event) ⟨events, rfl⟩

theorem Kept.withinBounds {node : Node} (h : Kept encode node) : WithinBounds node := by
  obtain ⟨_, hemitted⟩ := h.emitted
  have hcursor := hemitted.ordered.cursor
  refine ⟨h.flashblocks, h.received, hemitted.ordered.slots, ?_, ?_⟩
  · exact Nat.le_trans hcursor (length_filledPrefix_le _)
  · intro i hi
    have hlt : i < (filledPrefix node.state.flashblocks).length := by omega
    rw [slot_of_lt_filledPrefix hlt, List.getElem?_eq_getElem hlt]
    rfl

theorem step_from (node : Node) (event : Event) {payload : FlashblocksPayload}
    (h : Holds (node.step encode event).1.state payload) :
    payload ∈ carried event ∨ Holds node.state payload := by
  have hcases := step_cases encode node event
  cases hpublished : node.published event with
  | none =>
      rw [hpublished] at hcases
      rw [hcases.1] at h
      exact .inr h
  | some call =>
      rw [hpublished] at hcases
      rw [hcases.1] at h
      have hcarried : carried event = some call.2 := by
        cases event with
        | publishNew now other =>
            cases hpublished
            rfl
        | connect peer => cases hpublished
        | message peer now other =>
            obtain ⟨_, heq⟩ := Option.ite_none_right_eq_some.mp hpublished
            cases heq
            rfl
      rcases publish_from call.1 node.state call.2 payload (.inl h) with rfl | hheld
      · exact .inl hcarried
      · exact .inr hheld

theorem fits_run {events : List Event}
    (hfits : ∀ event ∈ events, ∀ payload ∈ carried event, (encode payload).length ≤ maxFrame) :
    Fits encode (exec (Node.step encode) {} events).1.state := by
  induction events using List.reverseRecOn with
  | nil => simp [Fits]
  | append_singleton events event ih =>
      have hbefore := ih fun other hmem => hfits other (List.mem_append_left _ hmem)
      have hlast := hfits event (List.mem_append_right _ List.mem_cons_self)
      rw [exec_concat]
      intro i payload hslot
      rcases step_from _ event ⟨i, hslot⟩ with hown | ⟨j, hslot⟩
      · exact hlast payload hown
      · exact hbefore j payload hslot

/-- In every run of a node no access is out of range, the state stays bounded and
consistent, and nothing that could be emitted waits. -/
theorem bounded_along_run (encode : FlashblocksPayload → Bytes) (events : List Event) :
    runChecked encode {} events = some (exec (Node.step encode) {} events) ∧
      WithinBounds (exec (Node.step encode) {} events).1 ∧
      ((∀ event ∈ events, ∀ payload ∈ carried event, (encode payload).length ≤ maxFrame) →
        slot (exec (Node.step encode) {} events).1.state.flashblocks
          (exec (Node.step encode) {} events).1.state.flashblockIndex = none) := by
  have hkept := @kept_run encode events
  refine ⟨runChecked_eq {} events, hkept.withinBounds, ?_⟩
  intro hfits
  obtain ⟨_, hemitted⟩ := hkept.emitted
  have hcursor := Nat.le_antisymm hemitted.ordered.cursor (hemitted.caughtUp (fits_run hfits))
  rw [hcursor]
  exact slot_filledPrefix_length _

end WorldChain.P2p.Bounded
