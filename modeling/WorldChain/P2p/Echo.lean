import WorldChain.P2p.Poll
import WorldChain.P2p.Repeats

/-! Runs of one connection: what the peer sends, what the node broadcasts, and
the calls of `poll_next` in between. A flashblock should not go back to the peer
that has sent it. -/
namespace WorldChain.P2p.Echo
open Relation Wire.Primitives Wire.Message Wire.Alloy Publish Connection Poll Repeats

inductive Action
  | send (now : Int) (buf : Bytes)
  | close
  | broadcast (item : PeerRxItem)
  /-- Items that the channel drops before the connection gets to them. -/
  | overrun (skipped : Nat)
  | elsewhere (state : FlashblocksP2PState)
  | poll

variable (D : Codecs FlashblockMetadata)

def act (p : Polling) : Action → Polling
  | .send now buf => { p with inbound := p.inbound ++ [(now, buf)] }
  | .close => { p with inboundOpen := false }
  | .broadcast item => { p with peerRx := p.peerRx ++ [item] }
  | .overrun skipped => { p with peerRx := .lagged skipped :: p.peerRx.drop skipped }
  | .elsewhere state => { p with state := state }
  | .poll => (pollNext D p).next

def reached (state : FlashblocksP2PState) (actions : List Action) : Polling :=
  actions.foldl (act D) { state := state }

def sentBy : Action → List (Int × Bytes)
  | .send now buf => [(now, buf)]
  | .close | .broadcast _ | .overrun _ | .elsewhere _ | .poll => []

def sent (actions : List Action) : List (Int × Bytes) := actions.flatMap sentBy

def payloadIn (msg : Int × Bytes) : Option FlashblocksPayload :=
  match decodeMsg D msg.2 with
  | .ok (.flashblocksPayloadV1 payload, _) => some payload
  | .error _ => none

def payloadsIn (msgs : List (Int × Bytes)) : List FlashblocksPayload :=
  msgs.filterMap (payloadIn D)

/-- Those of the peer's flashblocks that are no longer queued. -/
def handledAt (actions : List Action) (q : Polling) : List FlashblocksPayload :=
  payloadsIn D ((sent actions).take ((sent actions).length - q.inbound.length))

def Dequeues (q : Polling) (key : PayloadId × Nat) (bytes : Bytes) : Prop :=
  q.peerRx.head? = some (.ok (.flashblocksPayloadV1 key.1 key.2 bytes))

def Yields (p : Polling) (key : PayloadId × Nat) (bytes : Bytes) : Prop :=
  ∃ q, ReflTransGen (GoesOn D) p q ∧ Dequeues q key bytes ∧
    (Poll.round D q).outcome = some (.ready (some bytes))

def NoEcho (state : FlashblocksP2PState) (actions : List Action) : Prop :=
  ∀ before after, actions = before ++ .poll :: after → ∀ key bytes,
    Yields D (reached D state before) key bytes →
      key ∉ (payloadsIn D (sent before)).map payloadKey

variable {D}

theorem toSend_eq_some_iff (self : FlashblocksConnection) (key : PayloadId × Nat) (bytes : Bytes) :
    toSend self (.ok (.flashblocksPayloadV1 key.1 key.2 bytes)) = some bytes ↔
      ¬self.Marked key := by
  unfold toSend FlashblocksConnection.Marked
  simp

theorem round_ready_iff (q : Polling) (bytes : Bytes) :
    (Poll.round D q).outcome = some (.ready (some bytes)) ↔
      q.peerRx.head?.bind (toSend q.connection) = some bytes := by
  unfold Poll.round
  dsimp only
  cases hsend : q.peerRx.head?.bind (toSend q.connection) with
  | some bytes' => simp
  | none =>
      dsimp only
      cases hinbound : q.inbound with
      | nil => cases hopen : q.inboundOpen <;> simp
      | cons first inbound =>
          dsimp only
          cases hdecode : decodeMsg D first.2 with
          | error e => cases e <;> simp
          | ok decoded => simp

theorem round_sends_iff {q : Polling} {key : PayloadId × Nat} {bytes : Bytes}
    (h : Dequeues q key bytes) :
    (Poll.round D q).outcome = some (.ready (some bytes)) ↔ ¬q.connection.Marked key := by
  rw [round_ready_iff, h, Option.bind_some, toSend_eq_some_iff]

/-! The record along a run. -/

def Keeps (D : Codecs FlashblockMetadata) (msgs : List (Int × Bytes)) (p : Polling) : Prop :=
  ∃ handled, msgs = handled ++ p.inbound ∧ Records p.connection (payloadsIn D handled)

theorem payloadsIn_concat (msgs : List (Int × Bytes)) (msg : Int × Bytes) :
    payloadsIn D (msgs ++ [msg]) = payloadsIn D msgs ++ (payloadIn D msg).toList := by
  rw [payloadsIn, List.filterMap_append]
  cases hmsg : payloadIn D msg with
  | none => simp [payloadsIn, hmsg]
  | some payload => simp [payloadsIn, hmsg]

theorem Keeps.round {msgs : List (Int × Bytes)} {p : Polling} (h : Keeps D msgs p) :
    Keeps D msgs (Poll.round D p).next := by
  obtain ⟨handled, hmsgs, hrecords⟩ := h
  unfold Poll.round
  dsimp only
  cases p.peerRx.head?.bind (toSend p.connection) with
  | some bytes => exact ⟨handled, hmsgs, hrecords⟩
  | none =>
      dsimp only
      cases hinbound : p.inbound with
      | nil =>
          rw [hinbound] at hmsgs
          exact ⟨handled, by simpa [hinbound] using hmsgs, hrecords⟩
      | cons msg inbound =>
          have hnext : msgs = (handled ++ [msg]) ++ inbound := by
            rw [hmsgs, hinbound, List.append_assoc]
            rfl
          have hpayloads := payloadsIn_concat (D := D) handled msg
          dsimp only
          cases hdecode : decodeMsg D msg.2 with
          | error e =>
              rw [payloadIn, hdecode] at hpayloads
              have hsame : Records p.connection (payloadsIn D (handled ++ [msg])) := by
                rw [hpayloads]
                simpa using hrecords
              cases e with
              | rlp e => exact ⟨_, hnext, hsame⟩
              | panic message => exact ⟨_, hnext, hsame⟩
          | ok decoded =>
              obtain ⟨⟨payload⟩, rest⟩ := decoded
              rw [payloadIn, hdecode] at hpayloads
              refine ⟨_, hnext, ?_⟩
              rw [hpayloads]
              exact hrecords.handle msg.1 p.state payload

theorem Keeps.reaches {msgs : List (Int × Bytes)} {p q : Polling} (h : Keeps D msgs p)
    (hreaches : ReflTransGen (GoesOn D) p q) : Keeps D msgs q := by
  induction hreaches with
  | refl => exact h
  | tail _ hgoesOn ih =>
      rw [← hgoesOn.2]
      exact ih.round

theorem exists_last_round (p : Polling) :
    ∃ q, ReflTransGen (GoesOn D) p q ∧ (pollNext D p).next = (Poll.round D q).next := by
  generalize hn : p.inbound.length = n
  induction n generalizing p with
  | zero =>
      cases hround : (Poll.round D p).outcome with
      | none =>
          have hlength := round_goesOn hround
          omega
      | some outcome => exact ⟨p, .refl, by rw [pollNext_returns hround]⟩
  | succ n ih =>
      cases hround : (Poll.round D p).outcome with
      | none =>
          have hlength := round_goesOn hround
          obtain ⟨q, hreaches, hnext⟩ := ih (Poll.round D p).next (by omega)
          refine ⟨q, .head ⟨hround, rfl⟩ hreaches, ?_⟩
          rw [pollNext_goesOn hround]
          exact hnext
      | some outcome => exact ⟨p, .refl, by rw [pollNext_returns hround]⟩

theorem keeps_act {msgs : List (Int × Bytes)} {p : Polling} (h : Keeps D msgs p) (action : Action) :
    Keeps D (msgs ++ sentBy action) (act D p action) := by
  cases action with
  | send now buf =>
      obtain ⟨handled, hmsgs, hrecords⟩ := h
      exact ⟨handled, by rw [hmsgs, List.append_assoc]; rfl, hrecords⟩
  | poll =>
      obtain ⟨q, hreaches, hnext⟩ := exists_last_round (D := D) p
      rw [sentBy, List.append_nil, act, hnext]
      exact (h.reaches hreaches).round
  | close | broadcast _ | overrun _ | elsewhere _ =>
      rw [sentBy, List.append_nil]
      exact h

theorem keeps_reached (state : FlashblocksP2PState) (actions : List Action) :
    Keeps D (sent actions) (reached D state actions) := by
  induction actions using List.reverseRecOn with
  | nil => exact ⟨[], rfl, records_nil⟩
  | append_singleton actions action ih =>
      rw [sent, List.flatMap_append, List.flatMap_singleton, reached, List.foldl_concat]
      exact keeps_act ih action

theorem records_handledAt {state : FlashblocksP2PState} {actions : List Action} {q : Polling}
    (hreaches : ReflTransGen (GoesOn D) (reached D state actions) q) :
    Records q.connection (handledAt D actions q) := by
  obtain ⟨handled, hmsgs, hrecords⟩ := (keeps_reached state actions).reaches hreaches
  have htake : (sent actions).take ((sent actions).length - q.inbound.length) = handled := by
    rw [hmsgs, List.length_append, Nat.add_sub_cancel, List.take_left]
  rw [handledAt, htake]
  exact hrecords

/-- Exactly when nothing goes back: when each flashblock that the peer has sent
is taken off the queue after it was handled and before one of another payload is. -/
theorem noEcho_iff (state : FlashblocksP2PState) (actions : List Action) :
    NoEcho D state actions ↔
      ∀ before after, actions = before ++ .poll :: after → ∀ q,
        ReflTransGen (GoesOn D) (reached D state before) q → ∀ key bytes, Dequeues q key bytes →
          key ∈ (payloadsIn D (sent before)).map payloadKey →
            key.2 ≤ maxFlashblockIndex ∧
              ∃ earlier ∈ latest key.1 (handledAt D before q), payloadKey earlier = key := by
  constructor
  · intro hnoEcho before after hactions q hreaches key bytes hdequeues hsent
    rw [← records_handledAt hreaches key]
    by_contra hunmarked
    exact hnoEcho before after hactions key bytes
      ⟨q, hreaches, hdequeues, (round_sends_iff hdequeues).mpr hunmarked⟩ hsent
  · rintro hrecorded before after hactions key bytes ⟨q, hreaches, hdequeues, hready⟩ hsent
    have hmarked := (records_handledAt hreaches key).mpr
      (hrecorded before after hactions q hreaches key bytes hdequeues hsent)
    exact (round_sends_iff hdequeues).mp hready hmarked

/-- The peer sends flashblock 0 of payload 1, then one of payload 2; after that
the first one comes in from another peer. -/
def afterSwitch : List Action := [
  .send 10 (encode sampleCodecs (.bare 1 0)),
  .send 11 (encode sampleCodecs (.bare 2 0)),
  .poll,
  .broadcast (.ok (.flashblocksPayloadV1 1 0 [7]))]

theorem echoed_after_switch : ¬∀ state actions, NoEcho sampleCodecs state actions := by
  intro hall
  have hround : Dequeues (reached sampleCodecs {} afterSwitch) (1, 0) [7] ∧
      (Poll.round sampleCodecs (reached sampleCodecs {} afterSwitch)).outcome =
        some (.ready (some [7])) := by
    unfold Dequeues
    decide +kernel
  have hsent : (1, 0) ∈ (payloadsIn sampleCodecs (sent afterSwitch)).map payloadKey := by
    decide +kernel
  exact hall {} (afterSwitch ++ [.poll]) afterSwitch [] rfl (1, 0) [7]
    ⟨_, .refl, hround.1, hround.2⟩ hsent

end WorldChain.P2p.Echo
