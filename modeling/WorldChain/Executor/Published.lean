import WorldChain.Executor.Announced
import WorldChain.P2p.Gossip

/-! The executor together with the P2P handle that it publishes through. -/
namespace WorldChain.Executor.Published
open Library.ReorderBuffer (slot)
open Library.Overlay Library.Runs Wire.Primitives Deps.Reth Deps.Calls Deps.Concrete
open Process Announced P2p.Publish P2p.Gossip

structure Publisher (Tx : Type) where
  executor : FlashblocksStateExecutor Tx
  node : Node

/-- `broadcast` is what goes out on `peer_tx` and `flashblock_tx` during the call. -/
structure Outcome (Tx : Type) where
  result : Except Failure Unit
  publisher : Publisher Tx
  broadcast : List Sent

variable {Tx Db Core : Type}

def publishNews (now : Int) (events : List (Process.Event Tx)) : List P2p.Gossip.Event :=
  events.filterMap fun
    | .publishNew payload => some (.publishNew now payload)
    | .build _ _ | .push _ | .builtPayload _ => none

def publish (encode : FlashblocksPayload → Bytes) (now : Int) (self : Publisher Tx)
    (payload : FlashblocksPayload) (builtPayload : OpBuiltPayload Tx) : Outcome Tx :=
  let done := publishBuiltPayload self.executor payload builtPayload
  let reached := exec (Node.step encode) self.node (publishNews now done.events)
  ⟨done.result, ⟨done.executor, reached.1⟩, reached.2⟩

/-- What happens at a publisher: its own flashblocks, those it receives, and
whatever its peers do. -/
inductive Call (Tx Db : Type)
  | publish (now : Int) (payload : FlashblocksPayload) (builtPayload : OpBuiltPayload Tx)
  | processFlashblock (provider : Provider Db) (chainSpec : OpChainSpec) (fuel : Nat)
      (flashblock : Flashblock)
  | registerPayloadEvents
  | message (peer : Nat) (now : Int) (payload : FlashblocksPayload)
  | connect (peer : Nat)

def step (X : Crates Tx Db Core) (debugAssertions : Bool) (encode : FlashblocksPayload → Bytes)
    (self : Publisher Tx) : Call Tx Db → Publisher Tx × List Sent
  | .publish now payload builtPayload =>
      let outcome := publish encode now self payload builtPayload
      (outcome.publisher, outcome.broadcast)
  | .processFlashblock provider chainSpec fuel flashblock =>
      match processFlashblock X debugAssertions provider chainSpec fuel self.executor flashblock with
      | none => (self, [])
      | some done => ({ self with executor := done.executor }, [])
  | .registerPayloadEvents =>
      ({ self with executor := registerPayloadEvents self.executor }, [])
  | .message peer now payload =>
      let reached := self.node.step encode (.message peer now payload)
      ({ self with node := reached.1 }, reached.2)
  | .connect peer =>
      let reached := self.node.step encode (.connect peer)
      ({ self with node := reached.1 }, reached.2)

/-- The flashblock was gossiped during the call and is the one that is cached. -/
structure ReallyPublished (encode : FlashblocksPayload → Bytes) (payload : FlashblocksPayload)
    (outcome : Outcome Tx) : Prop where
  gossiped : .flashblocksPayloadV1 payload.payloadId payload.index.toNat (encode payload) ∈
    peerTx outcome.broadcast
  current : outcome.publisher.node.state.payloadId = payload.payloadId
  cached : slot outcome.publisher.node.state.flashblocks payload.index.toNat = some payload

variable {encode : FlashblocksPayload → Bytes}

theorem publish_of_ok {now : Int} {self : Publisher Tx} {payload : FlashblocksPayload}
    {builtPayload : OpBuiltPayload Tx}
    (h : (publish encode now self payload builtPayload).result = .ok ()) :
    (publish encode now self payload builtPayload).publisher.node.state =
        (P2p.Publish.publish encode now self.node.state payload).1 ∧
      (publish encode now self payload builtPayload).broadcast =
        (P2p.Publish.publish encode now self.node.state payload).2 := by
  unfold publish at h ⊢
  rcases publishBuiltPayload_cases self.executor payload builtPayload with
    ⟨e, heq⟩ | ⟨_, _, _, heq⟩
  · rw [heq] at h
    cases h
  · rw [heq]
    simp [publishNews, exec_cons, Node.step]

/-- Exactly when a publish that is reported as successful was one. -/
theorem published_iff (encode : FlashblocksPayload → Bytes) (now : Int) (self : Publisher Tx)
    (payload : FlashblocksPayload) (builtPayload : OpBuiltPayload Tx)
    (hok : (publish encode now self payload builtPayload).result = .ok ()) :
    ReallyPublished encode payload (publish encode now self payload builtPayload) ↔
      payload.index.toNat ≤ maxFlashblockIndex ∧
        (payload.payloadId = self.node.state.payloadId →
          slot self.node.state.flashblocks payload.index.toNat = none) ∧
        (encode payload).length ≤ maxFrame := by
  obtain ⟨hstate, hbroadcast⟩ := publish_of_ok hok
  have hfree : slot (self.node.state.resetFor payload).flashblocks payload.index.toNat = none ↔
      (payload.payloadId = self.node.state.payloadId →
        slot self.node.state.flashblocks payload.index.toNat = none) := by
    by_cases hid : payload.payloadId = self.node.state.payloadId
    · simp [resetFor_of_eq hid, hid]
    · simp [(resetFor_of_ne hid).2, hid]
  rw [← hfree]
  rcases publish_cases encode now self.node.state payload with
    ⟨hindex, heq⟩ | ⟨_, hfilled, heq⟩ | ⟨_, _, hlarge, heq⟩ | ⟨hindex, hempty, hfits, heq⟩
  all_goals
    rw [heq] at hstate hbroadcast
    constructor
  · intro h
    simpa [hbroadcast] using h.gossiped
  · intro h
    omega
  · intro h
    simpa [hbroadcast] using h.gossiped
  · rintro ⟨_, hempty, _⟩
    rw [hempty] at hfilled
    cases hfilled
  · intro h
    simpa [hbroadcast] using h.gossiped
  · intro h
    omega
  · intro _
    exact ⟨hindex, hempty, hfits⟩
  · intro _
    refine ⟨by simp [hbroadcast], by simp [hstate], ?_⟩
    rw [hstate, advance_flashblocks, slot_cached, if_pos rfl]

/-! Flashblock 0 of payload 1, of one byte on the wire. -/

def fresh : Publisher SampleTx := ⟨.new none, {}⟩

theorem published_iff_fresh :
    ReallyPublished (fun _ => [0]) (opens 1 12 []).flashblock
        (publish (fun _ => [0]) 20 fresh (opens 1 12 []).flashblock (samplePayload blank [])) ↔
      (opens 1 12 []).flashblock.index.toNat ≤ maxFlashblockIndex ∧
        ((opens 1 12 []).flashblock.payloadId = fresh.node.state.payloadId →
          slot fresh.node.state.flashblocks (opens 1 12 []).flashblock.index.toNat = none) ∧
        [(0 : UInt8)].length ≤ maxFrame :=
  published_iff (fun _ => [0]) 20 fresh _ _ rfl

/-- A peer has sent a flashblock 0 of that payload first. -/
theorem published_unsent :
    ¬∀ (self : Publisher SampleTx) now payload builtPayload,
      Reachable (step sample false fun _ => [0]) fresh self →
        (publish (fun _ => [0]) now self payload builtPayload).result = .ok () →
          ReallyPublished (fun _ => [0]) payload
            (publish (fun _ => [0]) now self payload builtPayload) := by
  intro hall
  have hpublished := hall (step sample false (fun _ => [0]) fresh (.message 0 19 (.bare 1 0))).1 20
    (opens 1 12 []).flashblock (samplePayload blank []) ⟨[.message 0 19 (.bare 1 0)], rfl⟩ rfl
  exact absurd hpublished.cached (by decide)

end WorldChain.Executor.Published
