import WorldChain.Library.Checked
import WorldChain.P2p.Bounded
import WorldChain.Wire.Alloy

/-! The handler and `publish` with their arithmetic checked: the indices, the
timestamps that peers send and the readings of the clock. -/
namespace WorldChain.P2p.Arithmetic
open Library Library.ReorderBuffer Library.Runs Library.Checked
open Wire.Primitives Wire.Message Publish OrderedState Connection Gossip
open Wire.Alloy (sampleCodecs sample_lawful)

/-- How late the message is, if it says when it was built. -/
def latency (now : Int) (payload : FlashblocksPayload) : Except Fault (Option Int) :=
  match payload.metadata.flashblockTimestamp with
  | some flashblockTimestamp => do
      let latency ← i64.sub now flashblockTimestamp
      return some latency
  | none => .ok none

/-- Not measured at the block boundary. -/
def interval (now : Int) (state : FlashblocksP2PState) : Except Fault (Option Int) :=
  if state.flashblockIndex ≠ 0 then do
    let interval ← i64.sub now state.flashblockTimestamp
    return some interval
  else .ok none

def checkedEmitLoop (now : Int) :
    Nat → FlashblocksP2PState → Except Fault (FlashblocksP2PState × List FlashblocksPayload)
  | 0, state => .ok (state, [])
  | fuel + 1, state =>
      match state.flashblocks[state.flashblockIndex]? with
      | some (some event) => do
          let _interval ← interval now state
          let flashblockIndex ← usize.add state.flashblockIndex 1
          let rest ← checkedEmitLoop now fuel
            { state with
              flashblockTimestamp := now
              flashblockIndex := flashblockIndex.toNat }
          return (rest.1, event :: rest.2)
      | _ => .ok (state, [])

variable (encode : FlashblocksPayload → Bytes)

def checkedPublish (now : Int) (state : FlashblocksP2PState) (payload : FlashblocksPayload) :
    Except Fault (FlashblocksP2PState × List Sent) :=
  let index := payload.index.toNat
  let state := state.resetFor payload
  if maxFlashblockIndex < index then .ok (state, [])
  else do
    let requiredLen ← usize.add index 1
    let state := { state with flashblocks := resize state.flashblocks requiredLen.toNat }
    if (slot state.flashblocks index).isSome then .ok (state, [])
    else
      let state := state.cache index payload
      let bytes := encode payload
      if maxFrame < bytes.length then .ok (state, [])
      else
        let emitted ← checkedEmitLoop now (state.flashblocks.length - state.flashblockIndex) state
        return (emitted.1, .peerTx (.flashblocksPayloadV1 payload.payloadId index bytes) ::
          emitted.2.map .flashblockTx)

/-- The clock is read for the latency, and once more by `publish`. -/
def checkedHandle (received now : Int) (self : FlashblocksConnection) (state : FlashblocksP2PState)
    (payload : FlashblocksPayload) : Except Fault (FlashblocksConnection × Handled) :=
  let index := payload.index.toNat
  let self := self.trackPayload payload
  if maxFlashblockIndex < index then .ok (self, { state })
  else do
    let requiredLen ← usize.add index 1
    let self := { self with
      received := self.received ++ List.replicate (requiredLen.toNat - self.received.length) false }
    if self.received[index]? = some true then
      .ok (self, { state, reputationChange := some .alreadySeenTransaction })
    else
      let self := self.mark index
      let _latency ← latency received payload
      let published ← checkedPublish encode now state payload
      return (self, { state := published.1, sent := published.2 })

/-- The call measures an interval: it caches a flashblock of the current payload
and emits behind one that it has emitted. -/
structure Measures (encode : FlashblocksPayload → Bytes) (state : FlashblocksP2PState)
    (payload : FlashblocksPayload) : Prop where
  payloadId : payload.payloadId = state.payloadId
  index : payload.index.toNat ≤ maxFlashblockIndex
  empty : slot state.flashblocks payload.index.toNat = none
  fits : (encode payload).length ≤ maxFrame
  cursor : state.flashblockIndex ≠ 0
  ready : state.flashblockIndex = payload.index.toNat ∨
    (slot state.flashblocks state.flashblockIndex).isSome

def IntervalFits (encode : FlashblocksPayload → Bytes) (now : Int) (state : FlashblocksP2PState)
    (payload : FlashblocksPayload) : Prop :=
  Measures encode state payload → i64.Contains (now - state.flashblockTimestamp)

structure InRange (encode : FlashblocksPayload → Bytes) (received now : Int)
    (connection : FlashblocksConnection) (state : FlashblocksP2PState)
    (payload : FlashblocksPayload) : Prop where
  latency : connection.forwards payload → ∀ timestamp ∈ payload.metadata.flashblockTimestamp,
    i64.Contains (received - timestamp)
  interval : connection.forwards payload → IntervalFits encode now state payload

variable {encode}

theorem latency_returns (now : Int) (payload : FlashblocksPayload) :
    Returns (latency now payload)
      (∀ timestamp ∈ payload.metadata.flashblockTimestamp, i64.Contains (now - timestamp))
      (payload.metadata.flashblockTimestamp.map fun timestamp => now - timestamp) := by
  unfold latency
  cases payload.metadata.flashblockTimestamp with
  | none => exact (Returns.ok none).congr (by simp) fun _ => rfl
  | some timestamp =>
      have hsub := fit_returns i64 .subtract (now - timestamp)
      exact (hsub.map some).congr (by simp) fun _ => rfl

theorem interval_returns (now : Int) (state : FlashblocksP2PState) :
    Returns (interval now state)
      (state.flashblockIndex ≠ 0 → i64.Contains (now - state.flashblockTimestamp))
      (if state.flashblockIndex ≠ 0 then some (now - state.flashblockTimestamp) else none) := by
  have hsub := fit_returns i64 .subtract (now - state.flashblockTimestamp)
  apply (Returns.ite (fun _ => hsub.map some) fun _ => Returns.ok none).congr
  · by_cases hcursor : state.flashblockIndex = 0 <;> simp [hcursor]
  · intro _
    rfl

/-- In the first round of the loop; in later ones the interval is zero. -/
def FirstRoundFits (now : Int) (state : FlashblocksP2PState) : Prop :=
  (slot state.flashblocks state.flashblockIndex).isSome → state.flashblockIndex ≠ 0 →
    i64.Contains (now - state.flashblockTimestamp)

theorem firstRoundFits_of_eq {now : Int} {state : FlashblocksP2PState}
    (h : state.flashblockTimestamp = now) : FirstRoundFits now state := by
  intro _ _
  rw [h, Int.sub_self]
  decide

theorem stopped_returns (now : Int) {state : FlashblocksP2PState}
    (hgap : slot state.flashblocks state.flashblockIndex = none) :
    Returns (.ok (state, []) : Except Fault (FlashblocksP2PState × List FlashblocksPayload))
      (FirstRoundFits now state) (state, []) := by
  refine .ok_of ?_ _
  intro hready
  rw [hgap] at hready
  cases hready

theorem checkedEmitLoop_returns (now : Int) (fuel : Nat) {state : FlashblocksP2PState}
    (hlength : state.flashblocks.length < UInt64.size)
    (hfuel : state.flashblocks.length - state.flashblockIndex ≤ fuel) :
    Returns (checkedEmitLoop now fuel state) (FirstRoundFits now state)
      (emitLoop now fuel state) := by
  induction fuel generalizing state with
  | zero => exact stopped_returns now (slot_of_length_le (by omega))
  | succ fuel ih =>
      unfold checkedEmitLoop emitLoop
      cases hheld : state.flashblocks[state.flashblockIndex]? with
      | none => exact stopped_returns now (congrArg Option.join hheld)
      | some held =>
          cases held with
          | none => exact stopped_returns now (congrArg Option.join hheld)
          | some event =>
              have hready : (slot state.flashblocks state.flashblockIndex).isSome := by
                rw [slot, hheld]
                rfl
              have hlt := (List.getElem?_eq_some_iff.mp hheld).1
              have hadd := @add_one UInt64.size state.flashblockIndex (by omega)
              have hrest := @ih { state with
                flashblockTimestamp := now
                flashblockIndex := state.flashblockIndex + 1 } hlength (by dsimp only; omega)
              have hlater : FirstRoundFits now { state with
                  flashblockTimestamp := now
                  flashblockIndex := state.flashblockIndex + 1 } := firstRoundFits_of_eq rfl
              dsimp only
              rw [hadd]
              apply ((interval_returns now state).bind fun _ => hrest.map _).congr
              · rw [and_iff_left hlater]
                exact ⟨fun h _ => h, fun h => h hready⟩
              · intro _
                rfl

theorem firstRoundFits_cached_iff (now : Int) {state : FlashblocksP2PState}
    {payload : FlashblocksPayload} (hindex : payload.index.toNat ≤ maxFlashblockIndex)
    (hempty : slot (state.resetFor payload).flashblocks payload.index.toNat = none)
    (hfits : (encode payload).length ≤ maxFrame) :
    FirstRoundFits now (state.cached payload) ↔ IntervalFits encode now state payload := by
  have htimestamp : (state.cached payload).flashblockTimestamp = state.flashblockTimestamp :=
    resetFor_flashblockTimestamp state payload
  unfold FirstRoundFits IntervalFits
  rw [htimestamp, cached_flashblockIndex, slot_cached]
  by_cases hid : payload.payloadId = state.payloadId
  · rw [resetFor_of_eq hid] at hempty ⊢
    constructor
    · intro h hmeasures
      refine h ?_ hmeasures.cursor
      split
      · rfl
      · rename_i hne
        exact hmeasures.ready.resolve_left hne
    · intro h hready hcursor
      refine h ⟨hid, hindex, hempty, hfits, hcursor, ?_⟩
      split at hready
      · rename_i heq
        exact .inl heq
      · exact .inr hready
  · rw [(resetFor_of_ne hid).1]
    exact iff_of_true (fun _ hzero => absurd rfl hzero) fun hmeasures =>
      absurd hmeasures.payloadId hid

theorem requiredLen_eq {index : Nat} (h : index ≤ maxFlashblockIndex) :
    usize.add index 1 = .ok (index + 1 : Nat) :=
  add_one (Nat.lt_of_le_of_lt (Nat.succ_le_succ h) (by decide))

theorem checkedPublish_returns (now : Int) {state : FlashblocksP2PState}
    (hlength : state.flashblocks.length < UInt64.size) (payload : FlashblocksPayload) :
    Returns (checkedPublish encode now state payload) (IntervalFits encode now state payload)
      (publish encode now state payload) := by
  unfold checkedPublish publish
  dsimp only
  by_cases hindex : maxFlashblockIndex < payload.index.toNat
  · rw [if_pos hindex, if_pos hindex]
    refine .ok_of ?_ _
    intro hmeasures
    exact absurd hmeasures.index (Nat.not_le.mpr hindex)
  have hle : payload.index.toNat ≤ maxFlashblockIndex := Nat.le_of_not_lt hindex
  rw [if_neg hindex, if_neg hindex, requiredLen_eq hle]
  simp only [bind, Except.bind, Int.toNat_natCast, slot_resize, slot_resizeFor]
  cases hslot : slot (state.resetFor payload).flashblocks payload.index.toNat with
  | some other =>
      refine .ok_of ?_ _
      intro hmeasures
      rw [resetFor_of_eq hmeasures.payloadId, hmeasures.empty] at hslot
      cases hslot
  | none =>
      simp only [Option.isSome_none, Bool.false_eq_true, if_false]
      by_cases hframe : maxFrame < (encode payload).length
      · simp only [if_pos hframe]
        refine .ok_of ?_ _
        intro hmeasures
        exact absurd hmeasures.fits (Nat.not_le.mpr hframe)
      · simp only [if_neg hframe]
        have hfits := @firstRoundFits_cached_iff encode now state payload hle hslot
          (Nat.le_of_not_lt hframe)
        have hcached : (state.cached payload).flashblocks.length < UInt64.size := by
          rw [length_cached]
          exact Nat.max_lt.mpr ⟨hlength, Nat.lt_of_le_of_lt (Nat.succ_le_succ hle) (by decide)⟩
        have hloop := checkedEmitLoop_returns now _ hcached (Nat.le_refl _)
        exact (hloop.map _).congr hfits fun _ => rfl

theorem inRange_iff (received now : Int) (self : FlashblocksConnection)
    (state : FlashblocksP2PState) (payload : FlashblocksPayload) :
    InRange encode received now self state payload ↔
      (self.forwards payload →
        (∀ timestamp ∈ payload.metadata.flashblockTimestamp, i64.Contains (received - timestamp)) ∧
          IntervalFits encode now state payload) :=
  ⟨fun h hforwards => ⟨h.latency hforwards, h.interval hforwards⟩,
    fun h => ⟨fun hforwards => (h hforwards).1, fun hforwards => (h hforwards).2⟩⟩

theorem checkedHandle_returns (received now : Int) (self : FlashblocksConnection)
    {state : FlashblocksP2PState} (hlength : state.flashblocks.length < UInt64.size)
    (payload : FlashblocksPayload) :
    Returns (checkedHandle encode received now self state payload)
      (InRange encode received now self state payload)
      (self.handleFlashblocksPayloadV1 encode now state payload) := by
  unfold checkedHandle FlashblocksConnection.handleFlashblocksPayloadV1
  dsimp only
  rw [inRange_iff]
  by_cases hindex : maxFlashblockIndex < payload.index.toNat
  · rw [if_pos hindex, if_pos hindex]
    refine .ok_of ?_ _
    intro hforwards
    exact absurd ((forwards_iff self payload).mp hforwards).1 (Nat.not_le.mpr hindex)
  have hle : payload.index.toNat ≤ maxFlashblockIndex := Nat.le_of_not_lt hindex
  have hforwards : self.forwards payload ↔
      ¬(self.tracked payload).received[payload.index.toNat]? = some true := by
    rw [forwards_iff, tracked_seen_iff]
    exact and_iff_right hle
  have hpublish := (@checkedPublish_returns encode now _ hlength payload).map fun published =>
    ((self.tracked payload).mark payload.index.toNat,
      ({ state := published.1, sent := published.2 } : Handled))
  rw [if_neg hindex, if_neg hindex, requiredLen_eq hle, hforwards]
  have hpasses := (latency_returns received payload).seq hpublish
  apply (Returns.ite (fun _ => Returns.ok _) fun _ => hpasses).congr
  · by_cases hseen : (self.tracked payload).received[payload.index.toNat]? = some true
    · exact (iff_of_eq (if_pos hseen)).trans (iff_of_true trivial fun hnew => absurd hseen hnew)
    · exact (iff_of_eq (if_neg hseen)).trans (imp_iff_right hseen).symm
  · intro _
    rfl

/-! Runs of a node. -/

def timedStep (encode : FlashblocksPayload → Bytes) (node : Node) (event : Int × Event) :
    Node × List Sent := node.step encode event.2

def checkedStep (encode : FlashblocksPayload → Bytes) (node : Node) :
    Int × Event → Except Fault (Node × List Sent)
  | (_, .publishNew now payload) => do
      let published ← checkedPublish encode now node.state payload
      return ({ node with state := published.1 }, published.2)
  | (received, .message peer now payload) => do
      let handled ←
        checkedHandle encode received now (node.connections peer) node.state payload
      return ({ node with state := handled.2.state }.setConnection peer handled.1, handled.2.sent)
  | (_, .connect peer) => .ok (node.setConnection peer {}, [])

/-- What a step is to meet; opening a connection computes nothing. -/
def StepInRange (encode : FlashblocksPayload → Bytes) (node : Node) : Int × Event → Prop
  | (_, .publishNew now payload) => IntervalFits encode now node.state payload
  | (received, .message peer now payload) =>
      InRange encode received now (node.connections peer) node.state payload
  | (_, .connect _) => True

theorem checkedStep_returns {node : Node} (hlength : node.state.flashblocks.length < UInt64.size)
    (event : Int × Event) :
    Returns (checkedStep encode node event) (StepInRange encode node event)
      (timedStep encode node event) := by
  obtain ⟨received, event⟩ := event
  cases event with
  | publishNew now payload => exact (checkedPublish_returns now hlength payload).map _
  | message peer now payload =>
      exact (checkedHandle_returns received now (node.connections peer) hlength payload).map _
  | connect peer => exact Returns.ok _

theorem length_lt_of_kept {node : Node} (h : Bounded.Kept encode node) :
    node.state.flashblocks.length < UInt64.size :=
  Nat.lt_of_le_of_lt h.flashblocks (by decide)

/-- A call returns exactly if its two differences are in their type, whatever the
state, and so does every run exactly if this is so of each of its steps. -/
theorem arithmetic_in_range (encode : FlashblocksPayload → Bytes) :
    (∀ received now self state payload, state.flashblocks.length < UInt64.size →
      Returns (checkedHandle encode received now self state payload)
        (InRange encode received now self state payload)
        (self.handleFlashblocksPayloadV1 encode now state payload)) ∧
      ∀ events, Returns (execChecked (checkedStep encode) {} events)
        (Meets (timedStep encode) (fun reached => StepInRange encode reached.1) {} events)
        (exec (timedStep encode) {} events) := by
  constructor
  · intro received now self state payload hlength
    exact checkedHandle_returns received now self hlength payload
  · intro events
    have hkeeps : ∀ node event, Bounded.Kept encode node →
        Bounded.Kept encode (timedStep encode node event).1 := fun _ event h => h.step event.2
    have hstep : ∀ node event, Bounded.Kept encode node →
        Returns (checkedStep encode node event) (StepInRange encode node event)
          (timedStep encode node event) := fun _ event h =>
      checkedStep_returns (length_lt_of_kept h) event
    exact execChecked_returns hkeeps hstep (Bounded.kept_run []) events

def emittedFirst : FlashblocksP2PState := (publish (fun _ => [0]) 10 {} (.bare 1 0)).1

def stampedSecond : FlashblocksPayload :=
  { FlashblocksPayload.bare 1 1 with metadata := { flashblockTimestamp := some 15 } }

theorem arithmetic_in_range_second_message :
    emittedFirst.flashblockIndex = 1 ∧
      Returns (checkedHandle (fun _ => [0]) 20 21 {} emittedFirst stampedSecond)
        (InRange (fun _ => [0]) 20 21 {} emittedFirst stampedSecond)
        (FlashblocksConnection.handleFlashblocksPayloadV1 (fun _ => [0]) 21 {} emittedFirst
          stampedSecond) :=
  ⟨by decide, (arithmetic_in_range fun _ => [0]).1 20 21 {} emittedFirst stampedSecond (by decide)⟩

def earliest : FlashblocksPayload :=
  { FlashblocksPayload.bare 1 0 with
    metadata := { flashblockTimestamp := some (-9223372036854775808) } }

/-- It comes off the wire, and the latency does not fit. -/
theorem earliest_faults :
    ¬∀ buf payload rest, decodeMsg sampleCodecs buf = .ok (.flashblocksPayloadV1 payload, rest) →
      ∀ received now self state, i64.Contains received → i64.Contains now →
        state.flashblocks.length < UInt64.size →
          (checkedHandle (fun payload => encodeMsg sampleCodecs (.flashblocksPayloadV1 payload))
            received now self state payload).isOk := by
  intro hall
  have hdecode := (msg_lawful sample_lawful).decode (.flashblocksPayloadV1 earliest) []
    (by decide +kernel)
  have hok := hall _ earliest [] hdecode 1700000000000000000 1700000000000000001 {} {} (by decide)
    (by decide) (by decide)
  have hrange := (checkedHandle_returns _ _ _ (by decide) _).isOk_iff.mp hok
  exact absurd (hrange.latency rfl _ rfl) (by decide)

/-! With a clock that is not set before the epoch. -/

def Reading (now : Int) : Prop := 0 ≤ now ∧ i64.Contains now

def readings : Int × Event → List Int
  | (_, .publishNew now _) => [now]
  | (received, .message _ now _) => [received, now]
  | (_, .connect _) => []

theorem publish_flashblockTimestamp {now : Int} {state : FlashblocksP2PState}
    (hnow : Reading now) (hstate : Reading state.flashblockTimestamp)
    (payload : FlashblocksPayload) :
    Reading (publish encode now state payload).1.flashblockTimestamp := by
  have hreset : Reading (state.resetFor payload).flashblockTimestamp := by
    rwa [resetFor_flashblockTimestamp]
  rcases publish_cases encode now state payload with
    ⟨_, heq⟩ | ⟨_, _, heq⟩ | ⟨_, _, _, heq⟩ | ⟨_, _, _, heq⟩
  · rwa [heq]
  · rwa [heq]
  · rwa [heq]
  · rw [heq]
    dsimp only [FlashblocksP2PState.advance]
    split
    · exact hreset
    · exact hnow

theorem timedStep_flashblockTimestamp {node : Node} {event : Int × Event}
    (hevent : ∀ now ∈ readings event, Reading now)
    (hnode : Reading node.state.flashblockTimestamp) :
    Reading (timedStep encode node event).1.state.flashblockTimestamp := by
  obtain ⟨received, event⟩ := event
  cases event with
  | publishNew now payload =>
      exact publish_flashblockTimestamp (hevent now List.mem_cons_self) hnode payload
  | connect peer => exact hnode
  | message peer now payload =>
      have hnow : Reading now := hevent now (List.mem_cons_of_mem _ List.mem_cons_self)
      have hstate := (handle_state encode now (node.connections peer) node.state payload).1
      simp only [timedStep, Node.step, Node.setConnection]
      rw [hstate]
      split
      · exact publish_flashblockTimestamp hnow hnode payload
      · exact hnode

theorem flashblockTimestamp_along_run {events : List (Int × Event)}
    (hevents : ∀ event ∈ events, ∀ now ∈ readings event, Reading now) :
    Reading (exec (timedStep encode) {} events).1.state.flashblockTimestamp := by
  induction events using List.reverseRecOn with
  | nil => exact ⟨Int.le_refl 0, (by decide : i64.Contains 0)⟩
  | append_singleton events event ih =>
      rw [exec_concat]
      have hlast := hevents event (List.mem_append_right _ List.mem_cons_self)
      exact timedStep_flashblockTimestamp hlast
        (ih fun other hmem => hevents other (List.mem_append_left _ hmem))

theorem contains_sub_of_readings {now before : Int} (hnow : Reading now)
    (hbefore : Reading before) : i64.Contains (now - before) := by
  obtain ⟨hlow, _, hhigh⟩ := hnow
  obtain ⟨hlow', _, hhigh'⟩ := hbefore
  simp only [IntType.Contains, i64, signed, UInt64.size] at hhigh hhigh' ⊢
  omega

/-- In every run the timestamp of a message is all that can be out of range. -/
theorem only_latency_faults (encode : FlashblocksPayload → Bytes) {events : List (Int × Event)}
    (hevents : ∀ event ∈ events, ∀ now ∈ readings event, Reading now) {received now : Int}
    (hnow : Reading now) (peer : Nat) (payload : FlashblocksPayload) :
    let node := (exec (timedStep encode) {} events).1
    (checkedHandle encode received now (node.connections peer) node.state payload).isOk ↔
      ((node.connections peer).forwards payload →
        ∀ timestamp ∈ payload.metadata.flashblockTimestamp,
          i64.Contains (received - timestamp)) := by
  intro node
  have hlast : Reading node.state.flashblockTimestamp := flashblockTimestamp_along_run hevents
  have hinterval : IntervalFits encode now node.state payload := fun _ =>
    contains_sub_of_readings hnow hlast
  have hkept : Bounded.Kept encode node :=
    reachable_invariant (Bounded.kept_run []) (fun _ event h => h.step event.2) ⟨events, rfl⟩
  have hhandle := @checkedHandle_returns encode received now (node.connections peer) _
    (length_lt_of_kept hkept) payload
  rw [hhandle.isOk_iff, inRange_iff]
  simp only [hinterval, and_true]

end WorldChain.P2p.Arithmetic
