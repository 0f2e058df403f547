import Mathlib.Logic.Relation
import WorldChain.P2p.Connection
import WorldChain.Wire.Alloy

/-! The stream side of a connection: `poll_next` alternates between what the
node broadcasts and what the peer sends. -/
namespace WorldChain.P2p.Poll
open Relation Wire.Primitives Wire.Message Wire.Alloy Publish Connection

inductive PeerRxItem
  | ok (msg : PeerMsg)
  | lagged (skipped : Nat)
  deriving DecidableEq

def toSend (self : FlashblocksConnection) : PeerRxItem → Option Bytes
  | .ok (.flashblocksPayloadV1 payloadId index bytes) =>
      if self.payloadId ≠ payloadId ∨ self.received[index]? ≠ some true then some bytes else none
  | .lagged _ => none

/-- What a call finds. A message of the peer comes with the clock at which it is
handled; the node keeps a sender of `peer_rx`, so that channel stays open. -/
structure Polling where
  connection : FlashblocksConnection := {}
  state : FlashblocksP2PState := {}
  peerRx : List PeerRxItem := []
  inbound : List (Int × Bytes) := []
  inboundOpen : Bool := true
  deriving DecidableEq

inductive PollOutcome
  | pending
  | ready (item : Option Bytes)
  | panicked (message : String)
  deriving DecidableEq

/-- The outcome is `none` while the loop goes on. `peerRxPending` says that
`peer_rx` was empty when it was last polled, which registers its waker. -/
structure Polled where
  next : Polling
  outcome : Option PollOutcome
  peerRxPending : Bool
  sent : List Sent := []
  reputationChanges : List ReputationChangeKind := []
  deriving DecidableEq

variable (D : Codecs FlashblockMetadata)

def encode (payload : FlashblocksPayload) : Bytes := encodeMsg D (.flashblocksPayloadV1 payload)

/-- One round of the loop. What is published on the way is broadcast to this
connection as well. -/
def round (p : Polling) : Polled :=
  let peerRx := p.peerRx.tail
  match p.peerRx.head?.bind (toSend p.connection) with
  | some bytes => ⟨{ p with peerRx := peerRx }, some (.ready (some bytes)), false, [], []⟩
  | none =>
      match p.inbound with
      | [] =>
          let outcome := if p.inboundOpen then .pending else .ready none
          ⟨{ p with peerRx := peerRx }, some outcome, p.peerRx.isEmpty, [], []⟩
      | (now, buf) :: inbound =>
          let p' := { p with peerRx := peerRx, inbound := inbound }
          match decodeMsg D buf with
          | .error (.panic message) =>
              ⟨p', some (.panicked message), p.peerRx.isEmpty, [], []⟩
          | .error (.rlp _) => ⟨p', some (.ready none), p.peerRx.isEmpty, [], [.badMessage]⟩
          | .ok (.flashblocksPayloadV1 payload, _) =>
              let handled := p.connection.handleFlashblocksPayloadV1 (encode D) now p.state payload
              { next := { p' with
                  connection := handled.1
                  state := handled.2.state
                  peerRx := peerRx ++ (peerTx handled.2.sent).map .ok }
                outcome := none
                peerRxPending := p.peerRx.isEmpty
                sent := handled.2.sent
                reputationChanges := handled.2.reputationChange.toList }

def Polled.andThen (self later : Polled) : Polled :=
  { later with
    sent := self.sent ++ later.sent
    reputationChanges := self.reputationChanges ++ later.reputationChanges }

def pollLoop : Nat → Polling → Polled
  | 0, p => round D p
  | fuel + 1, p =>
      match (round D p).outcome with
      | none => (round D p).andThen (pollLoop fuel (round D p).next)
      | some _ => round D p

/-- Every round but the last takes a message of the peer. -/
def pollNext (p : Polling) : Polled := pollLoop D p.inbound.length p

/-- Pending with nothing left in `peer_rx`, and its waker registered. -/
def Drained (polled : Polled) : Prop :=
  polled.outcome = some .pending → polled.next.peerRx = [] ∧ polled.peerRxPending = true

instance (polled : Polled) : Decidable (Drained polled) :=
  inferInstanceAs (Decidable (_ → _ ∧ _))

/-- The round takes an item off `peer_rx` that it does not send, and then finds
nothing from the peer. -/
def Strands (p : Polling) : Prop :=
  p.inbound = [] ∧ p.inboundOpen = true ∧ ∃ item ∈ p.peerRx.head?, toSend p.connection item = none

def GoesOn (p q : Polling) : Prop := (round D p).outcome = none ∧ (round D p).next = q

variable {D}

theorem round_goesOn {p : Polling} (h : (round D p).outcome = none) :
    p.inbound.length = (round D p).next.inbound.length + 1 := by
  unfold round at h ⊢
  dsimp only at h ⊢
  cases hsend : p.peerRx.head?.bind (toSend p.connection) with
  | some bytes =>
      rw [hsend] at h
      cases h
  | none =>
      rw [hsend] at h
      dsimp only at h ⊢
      cases hinbound : p.inbound with
      | nil =>
          rw [hinbound] at h
          cases h
      | cons first inbound =>
          rw [hinbound] at h
          dsimp only at h ⊢
          cases hdecode : decodeMsg D first.2 with
          | error e =>
              rw [hdecode] at h
              cases e <;> cases h
          | ok decoded => rfl

theorem pollNext_goesOn {p : Polling} (h : (round D p).outcome = none) :
    pollNext D p = (round D p).andThen (pollNext D (round D p).next) := by
  unfold pollNext
  rw [round_goesOn h, pollLoop, h]

theorem pollNext_returns {p : Polling} {outcome : PollOutcome}
    (h : (round D p).outcome = some outcome) : pollNext D p = round D p := by
  unfold pollNext
  cases p.inbound.length with
  | zero => rfl
  | succ fuel => rw [pollLoop, h]

theorem pollNext_outcome (p : Polling) : (pollNext D p).outcome ≠ none := by
  generalize hn : p.inbound.length = n
  induction n generalizing p with
  | zero =>
      intro hnone
      cases hround : (round D p).outcome with
      | none =>
          have hlength := round_goesOn hround
          omega
      | some outcome =>
          rw [pollNext_returns hround, hround] at hnone
          cases hnone
  | succ n ih =>
      cases hround : (round D p).outcome with
      | none =>
          rw [pollNext_goesOn hround]
          apply ih
          have hlength := round_goesOn hround
          omega
      | some outcome =>
          rw [pollNext_returns hround, hround]
          exact Option.some_ne_none _

theorem round_pending_iff (p : Polling) : (round D p).outcome = some .pending ↔
    p.peerRx.head?.bind (toSend p.connection) = none ∧ p.inbound = [] ∧ p.inboundOpen = true := by
  unfold round
  dsimp only
  cases hsend : p.peerRx.head?.bind (toSend p.connection) with
  | some bytes => simp
  | none =>
      dsimp only
      cases hinbound : p.inbound with
      | nil => cases hopen : p.inboundOpen <;> simp
      | cons first inbound =>
          dsimp only
          cases hdecode : decodeMsg D first.2 with
          | error e => cases e <;> simp
          | ok decoded => simp

theorem round_idle {p : Polling} (h : (round D p).outcome = some .pending) :
    (round D p).next.peerRx = p.peerRx.tail ∧ (round D p).peerRxPending = p.peerRx.isEmpty := by
  obtain ⟨hsend, hinbound, _⟩ := (round_pending_iff p).mp h
  unfold round
  dsimp only
  rw [hsend, hinbound]
  exact ⟨rfl, rfl⟩

theorem drained_round_iff (p : Polling) : Drained (round D p) ↔ ¬Strands p := by
  by_cases hpending : (round D p).outcome = some .pending
  · obtain ⟨hsend, hinbound, hopen⟩ := (round_pending_iff p).mp hpending
    obtain ⟨hrest, hempty⟩ := round_idle hpending
    unfold Drained Strands
    rw [hrest, hempty]
    cases hqueue : p.peerRx with
    | nil => simp
    | cons item rest =>
        rw [hqueue, List.head?_cons, Option.bind_some] at hsend
        simp [hpending, hinbound, hopen, hsend]
  · constructor
    · rintro _ ⟨hinbound, hopen, item, hitem, hsend⟩
      apply hpending
      refine (round_pending_iff p).mpr ⟨?_, hinbound, hopen⟩
      rw [Option.mem_def.mp hitem, Option.bind_some, hsend]
    · intro _ hreturned
      exact absurd hreturned hpending

theorem drained_iff_of_returns {p : Polling} {outcome : PollOutcome}
    (h : (round D p).outcome = some outcome) :
    Drained (pollNext D p) ↔ ∀ q, ReflTransGen (GoesOn D) p q → ¬Strands q := by
  rw [pollNext_returns h, drained_round_iff]
  constructor
  · intro hdrained q hreaches
    rcases hreaches.cases_head with rfl | ⟨r, ⟨hgoesOn, _⟩, _⟩
    · exact hdrained
    · rw [h] at hgoesOn
      cases hgoesOn
  · intro hall
    exact hall p .refl

/-- A call that returns pending has nothing left to send, exactly when none of
its rounds strands what is behind an item that it does not send. -/
theorem pending_drained_iff (p : Polling) :
    Drained (pollNext D p) ↔ ∀ q, ReflTransGen (GoesOn D) p q → ¬Strands q := by
  generalize hn : p.inbound.length = n
  induction n generalizing p with
  | zero =>
      cases hround : (round D p).outcome with
      | none =>
          have hlength := round_goesOn hround
          omega
      | some outcome => exact drained_iff_of_returns hround
  | succ n ih =>
      cases hround : (round D p).outcome with
      | some outcome => exact drained_iff_of_returns hround
      | none =>
          have hlength := round_goesOn hround
          have hnext := ih (round D p).next (by omega)
          have hstays : ¬Strands p := by
            rintro ⟨hinbound, _⟩
            rw [hinbound] at hn
            cases hn
          rw [pollNext_goesOn hround]
          refine hnext.trans ⟨?_, ?_⟩
          · intro hall q hreaches
            rcases hreaches.cases_head with rfl | ⟨r, ⟨_, rfl⟩, hrest⟩
            · exact hstays
            · exact hall q hrest
          · intro hall q hreaches
            exact hall q (.head ⟨hround, rfl⟩ hreaches)

/-! The peer has sent flashblock 0 of payload 1, so the node does not send it
back; flashblock 1 is behind it. -/

def ownEchoFirst : Polling where
  connection := { payloadId := 1, received := [true] }
  peerRx := [.ok (.flashblocksPayloadV1 1 0 [0]), .ok (.flashblocksPayloadV1 1 1 [1])]

/-- Flashblock 1 stays queued until the peer happens to send something. -/
theorem left_behind : ¬∀ p, Drained (pollNext sampleCodecs p) := by
  intro hall
  exact absurd (hall ownEchoFirst) (by decide)

end WorldChain.P2p.Poll
