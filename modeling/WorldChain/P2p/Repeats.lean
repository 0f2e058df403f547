import Mathlib.Data.List.DropRight
import WorldChain.Library.Runs
import WorldChain.P2p.Connection

/-! Flashblocks that a peer sends more than once on its connection. -/
namespace WorldChain.P2p.Repeats
open Library.Runs Wire.Primitives Publish Connection

/-- A decoded message, the clock it is handled at, and the ordering state as the
rest of the node has left it by then. -/
structure Arrival where
  now : Int
  state : FlashblocksP2PState
  payload : FlashblocksPayload

def receive (encode : FlashblocksPayload → Bytes) (self : FlashblocksConnection)
    (arrival : Arrival) : FlashblocksConnection × List Handled :=
  let handled := self.handleFlashblocksPayloadV1 encode arrival.now arrival.state arrival.payload
  (handled.1, [handled.2])

/-- A flashblock within the bounds that has been among these messages before. -/
structure Repeated (before : List Arrival) (payload : FlashblocksPayload) : Prop where
  inRange : payload.index.toNat ≤ maxFlashblockIndex
  sent : ∃ earlier ∈ before, payloadKey earlier.payload = payloadKey payload

structure Caught (encode : FlashblocksPayload → Bytes) (connection : FlashblocksConnection)
    (arrival : Arrival) : Prop where
  held : ¬connection.forwards arrival.payload
  reported : (connection.handleFlashblocksPayloadV1 encode arrival.now arrival.state
    arrival.payload).2.reputationChange = some .alreadySeenTransaction

def RepeatsCaught (encode : FlashblocksPayload → Bytes) (arrivals : List Arrival) : Prop :=
  ∀ before arrival after, arrivals = before ++ arrival :: after →
    Repeated before arrival.payload → Caught encode (exec (receive encode) {} before).1 arrival

def sinceOther (payloadId : PayloadId) (arrivals : List Arrival) : List Arrival :=
  arrivals.rtakeWhile fun arrival => arrival.payload.payloadId = payloadId

variable {encode : FlashblocksPayload → Bytes}

def latest (payloadId : PayloadId) (payloads : List FlashblocksPayload) : List FlashblocksPayload :=
  payloads.rtakeWhile fun payload => payload.payloadId = payloadId

def Records (self : FlashblocksConnection) (payloads : List FlashblocksPayload) : Prop :=
  ∀ key, self.Marked key ↔
    key.2 ≤ maxFlashblockIndex ∧ ∃ earlier ∈ latest key.1 payloads, payloadKey earlier = key

theorem latest_concat (payloadId : PayloadId) (payloads : List FlashblocksPayload)
    (payload : FlashblocksPayload) :
    latest payloadId (payloads ++ [payload]) =
      if payload.payloadId = payloadId then latest payloadId payloads ++ [payload] else [] := by
  simp [latest, List.rtakeWhile_concat]

theorem records_nil : Records {} [] := by
  intro key
  simp [FlashblocksConnection.Marked, latest]

/-- The step lemma: the record is cleared by a message of another payload, and by
nothing else. -/
theorem Records.handle {self : FlashblocksConnection} {payloads : List FlashblocksPayload}
    (h : Records self payloads) (now : Int) (state : FlashblocksP2PState)
    (payload : FlashblocksPayload) :
    Records (self.handleFlashblocksPayloadV1 encode now state payload).1
      (payloads ++ [payload]) := by
  intro key
  rw [handle_marked, h key, latest_concat]
  by_cases hid : payload.payloadId = key.1
  · rw [if_pos hid]
    constructor
    · rintro (⟨rfl, hrange⟩ | ⟨_, hrange, earlier, hmem, hkey⟩)
      · exact ⟨hrange, payload, List.mem_append_right _ List.mem_cons_self, rfl⟩
      · exact ⟨hrange, earlier, List.mem_append_left _ hmem, hkey⟩
    · rintro ⟨hrange, earlier, hmem, rfl⟩
      rcases List.mem_append.mp hmem with hold | hlast
      · exact .inr ⟨hid, hrange, earlier, hold, rfl⟩
      · rw [List.mem_singleton.mp hlast] at hrange ⊢
        exact .inl ⟨rfl, hrange⟩
  · have hother : key ≠ payloadKey payload := by
      rintro rfl
      exact hid rfl
    simp [hid, hother]

theorem records_exec (arrivals : List Arrival) :
    Records (exec (receive encode) {} arrivals).1 (arrivals.map Arrival.payload) := by
  induction arrivals using List.reverseRecOn with
  | nil => exact records_nil
  | append_singleton arrivals arrival ih =>
      rw [exec_concat, List.map_append, List.map_singleton]
      exact ih.handle arrival.now arrival.state arrival.payload

theorem latest_map (payloadId : PayloadId) (arrivals : List Arrival) :
    latest payloadId (arrivals.map Arrival.payload) =
      (sinceOther payloadId arrivals).map Arrival.payload := by
  rw [latest, List.rtakeWhile, ← List.map_reverse, List.takeWhile_map, ← List.map_reverse]
  rfl

theorem marked_iff (arrivals : List Arrival) (key : PayloadId × Nat) :
    (exec (receive encode) {} arrivals).1.Marked key ↔
      key.2 ≤ maxFlashblockIndex ∧
        ∃ earlier ∈ sinceOther key.1 arrivals, payloadKey earlier.payload = key := by
  rw [records_exec arrivals key, latest_map]
  simp only [List.mem_map, exists_exists_and_eq_and]

theorem caught_iff (self : FlashblocksConnection) (arrival : Arrival) :
    Caught encode self arrival ↔ arrival.payload.index.toNat ≤ maxFlashblockIndex ∧
      self.Marked (payloadKey arrival.payload) := by
  have hreported := handle_reputationChange encode arrival.now self arrival.state arrival.payload
  constructor
  · intro h
    exact hreported.mp h.reported
  · intro h
    refine ⟨?_, hreported.mpr h⟩
    intro hforwards
    exact ((forwards_iff self arrival.payload).mp hforwards).2 h.2

/-- Exactly when all repeats are caught: when each comes before any message of
another payload has come. -/
theorem repeats_caught_iff (encode : FlashblocksPayload → Bytes) (arrivals : List Arrival) :
    RepeatsCaught encode arrivals ↔
      ∀ before arrival after, arrivals = before ++ arrival :: after →
        Repeated before arrival.payload →
          ∃ earlier ∈ sinceOther arrival.payload.payloadId before,
            payloadKey earlier.payload = payloadKey arrival.payload := by
  unfold RepeatsCaught
  refine forall_congr' fun before => forall_congr' fun arrival => forall_congr' fun after =>
    forall_congr' fun _ => forall_congr' fun hrepeated => ?_
  rw [caught_iff, marked_iff]
  constructor
  · rintro ⟨_, _, hearlier⟩
    exact hearlier
  · intro hearlier
    exact ⟨hrepeated.inRange, hrepeated.inRange, hearlier⟩

theorem repeat_forwarded : ¬∀ arrivals, RepeatsCaught (fun _ => [0]) arrivals := by
  intro hall
  have hcaught := hall [⟨10, {}, .bare 1 0⟩, ⟨11, {}, .bare 2 0⟩, ⟨12, {}, .bare 1 0⟩]
    [⟨10, {}, .bare 1 0⟩, ⟨11, {}, .bare 2 0⟩] ⟨12, {}, .bare 1 0⟩ [] rfl
    ⟨by decide, ⟨10, {}, .bare 1 0⟩, List.mem_cons_self, rfl⟩
  exact absurd hcaught.reported (by decide)

end WorldChain.P2p.Repeats
