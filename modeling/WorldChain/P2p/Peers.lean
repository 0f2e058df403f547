import Mathlib.Logic.Function.Basic
import WorldChain.P2p.Gossip
import WorldChain.P2p.Poll

/-! A network of nodes. Every node has one ordering state and a connection for
each peer; the tasks of the connections and of the publisher take turns, and a
message stays on its wire until it is delivered. -/
namespace WorldChain.P2p.Peers
open Library.Runs Wire.Primitives Wire.Message Publish Connection Gossip Poll

variable {ι : Type}

/-- A connection and its two channels. No item of `peerRx` is dropped. -/
structure Link where
  connection : FlashblocksConnection := {}
  peerRx : List PeerRxItem := []
  inbound : List Bytes := []
  /-- The loop has found nothing to send and goes on to the peer's messages. -/
  receiving : Bool := false

/-- `links n m` is the connection of `n` with `m`, and `wires n m` what is on
its way from `n` to `m`. -/
structure Network (ι : Type) where
  states : ι → FlashblocksP2PState := fun _ => {}
  links : ι → ι → Link := fun _ _ => {}
  wires : ι → ι → List Bytes := fun _ _ => []

/-- The two halves of a round of the loop are events of their own: other tasks
may run in between. -/
inductive Event (ι : Type)
  | publishNew (node : ι) (now : Int) (payload : FlashblocksPayload)
  | outbound (node peer : ι)
  | inbound (node peer : ι) (now : Int)
  | deliver (sender receiver : ι)

inductive Output (ι : Type)
  | sent (node : ι) (sent : Sent)
  | reputationChange (node peer : ι) (kind : ReputationChangeKind)

def reputationChanges (outputs : List (Output ι)) : List (ι × ι × ReputationChangeKind) :=
  outputs.filterMap fun
    | .sent _ _ => none
    | .reputationChange node peer kind => some (node, peer, kind)

@[simp] theorem reputationChanges_append (left right : List (Output ι)) :
    reputationChanges (left ++ right) = reputationChanges left ++ reputationChanges right := by
  simp [reputationChanges]

@[simp] theorem reputationChanges_sent (node : ι) (sent : List Sent) :
    reputationChanges (sent.map (.sent node)) = [] := by
  simp [reputationChanges]

variable [DecidableEq ι]

def Network.setState (net : Network ι) (node : ι) (state : FlashblocksP2PState) : Network ι :=
  { net with states := fun n => if n = node then state else net.states n }

def Network.setLink (net : Network ι) (node peer : ι) (link : Link) : Network ι :=
  { net with links := fun n m => if n = node ∧ m = peer then link else net.links n m }

def Network.setWire (net : Network ι) (sender receiver : ι) (wire : List Bytes) : Network ι :=
  { net with wires := fun n m => if n = sender ∧ m = receiver then wire else net.wires n m }

def Network.broadcast (linked : ι → ι → Bool) (net : Network ι) (node : ι) (sent : List Sent) :
    Network ι :=
  { net with links := fun n m =>
      if n = node ∧ linked n m then
        { net.links n m with peerRx := (net.links n m).peerRx ++ (peerTx sent).map .ok }
      else net.links n m }

variable (D : Codecs FlashblockMetadata) (linked : ι → ι → Bool)

def receive (link : Link) (now : Int) (state : FlashblocksP2PState) : Polled :=
  Poll.round D {
    connection := link.connection
    state := state
    inbound := (link.inbound.head?.map fun buf => (now, buf)).toList }

def Network.step (net : Network ι) : Event ι → Network ι × List (Output ι)
  | .publishNew node now payload =>
      let published := publish (encode D) now (net.states node) payload
      ((net.setState node published.1).broadcast linked node published.2,
        published.2.map (.sent node))
  | .outbound node peer =>
      let link := net.links node peer
      if link.receiving then (net, [])
      else
        match link.peerRx.head?.bind (toSend link.connection) with
        | some bytes =>
            ((net.setLink node peer { link with peerRx := link.peerRx.tail }).setWire node peer
              (net.wires node peer ++ [bytes]), [])
        | none =>
            (net.setLink node peer
              { link with peerRx := link.peerRx.tail, receiving := true }, [])
  | .inbound node peer now =>
      let link := net.links node peer
      if link.receiving then
        let polled := receive D link now (net.states node)
        -- what a node sends decodes, so no round ends the connection
        let net := net.setLink node peer
          { link with
            connection := polled.next.connection
            inbound := link.inbound.tail
            receiving := false }
        ((net.setState node polled.next.state).broadcast linked node polled.sent,
          polled.sent.map (.sent node) ++
            polled.reputationChanges.map (.reputationChange node peer))
      else (net, [])
  | .deliver sender receiver =>
      match net.wires sender receiver with
      | [] => (net, [])
      | bytes :: wire =>
          let link := net.links receiver sender
          ((net.setLink receiver sender { link with inbound := link.inbound ++ [bytes] }).setWire
            sender receiver wire, [])

def sentBy (node : ι) (outputs : List (Output ι)) : List Sent :=
  outputs.filterMap fun
    | .sent n sent => if n = node then some sent else none
    | .reputationChange _ _ _ => none

def Network.published (net : Network ι) : Event ι → Option (ι × FlashblocksPayload)
  | .publishNew node _ payload => some (node, payload)
  | .inbound node peer _ =>
      let link := net.links node peer
      if link.receiving then
        match link.inbound.head?.map (decodeMsg D) with
        | some (.ok (.flashblocksPayloadV1 payload, _)) =>
            if link.connection.forwards payload then some (node, payload) else none
        | some (.error _) | none => none
      else none
  | .outbound _ _ | .deliver _ _ => none

variable {D linked}

/-! Frame lemmas. -/

@[simp] theorem setState_states (net : Network ι) (node n : ι) (state : FlashblocksP2PState) :
    (net.setState node state).states n = if n = node then state else net.states n := rfl

@[simp] theorem setLink_states (net : Network ι) (node peer : ι) (link : Link) :
    (net.setLink node peer link).states = net.states := rfl

@[simp] theorem setLink_links (net : Network ι) (node peer n m : ι) (link : Link) :
    (net.setLink node peer link).links n m =
      if n = node ∧ m = peer then link else net.links n m := rfl

theorem setLink_same {β : Type} (view : Link → β) {net : Network ι} {node peer : ι} {link : Link}
    (h : view link = view (net.links node peer)) (n m : ι) :
    view ((net.setLink node peer link).links n m) = view (net.links n m) := by
  rw [setLink_links]
  split
  · rename_i hlink
    rw [h, hlink.1, hlink.2]
  · rfl

@[simp] theorem setWire_wires (net : Network ι) (sender receiver n m : ι) (wire : List Bytes) :
    (net.setWire sender receiver wire).wires n m =
      if n = sender ∧ m = receiver then wire else net.wires n m := rfl

@[simp] theorem broadcast_states (net : Network ι) (node : ι) (sent : List Sent) :
    (net.broadcast linked node sent).states = net.states := rfl

@[simp] theorem broadcast_wires (net : Network ι) (node : ι) (sent : List Sent) :
    (net.broadcast linked node sent).wires = net.wires := rfl

@[simp] theorem broadcast_connection (net : Network ι) (node n m : ι) (sent : List Sent) :
    ((net.broadcast linked node sent).links n m).connection = (net.links n m).connection := by
  unfold Network.broadcast
  dsimp only
  split <;> rfl

@[simp] theorem broadcast_inbound (net : Network ι) (node n m : ι) (sent : List Sent) :
    ((net.broadcast linked node sent).links n m).inbound = (net.links n m).inbound := by
  unfold Network.broadcast
  dsimp only
  split <;> rfl

theorem broadcast_peerRx (net : Network ι) (node n m : ι) (sent : List Sent) :
    ((net.broadcast linked node sent).links n m).peerRx =
      if n = node ∧ linked n m then (net.links n m).peerRx ++ (peerTx sent).map .ok
      else (net.links n m).peerRx := by
  unfold Network.broadcast
  dsimp only
  split <;> rfl

@[simp] theorem sentBy_append (node : ι) (left right : List (Output ι)) :
    sentBy node (left ++ right) = sentBy node left ++ sentBy node right := by
  simp [sentBy]

@[simp] theorem sentBy_sent (node n : ι) (sent : List Sent) :
    sentBy n (sent.map (.sent node)) = if n = node then sent else [] := by
  unfold sentBy
  rw [List.filterMap_map]
  split
  · rename_i hnode
    subst hnode
    simp
  · rename_i hnode
    simp [Ne.symm hnode]

@[simp] theorem sentBy_reputationChange (node n peer : ι) (kinds : List ReputationChangeKind) :
    sentBy n (kinds.map (.reputationChange node peer)) = [] := by
  simp [sentBy]

/-! The second half of a round. -/

inductive Received (D : Codecs FlashblockMetadata) (link : Link) (now : Int)
    (state : FlashblocksP2PState) (polled : Polled) : Prop
  | idle (hinbound : link.inbound = [])
      (hconnection : polled.next.connection = link.connection)
      (hstate : polled.next.state = state) (hsent : polled.sent = [])
      (hchanges : polled.reputationChanges = [])
  | garbled (buf : Bytes) (rest : List Bytes) (e : DecodeError)
      (hinbound : link.inbound = buf :: rest) (hdecode : decodeMsg D buf = .error e)
      (hstate : polled.next.state = state) (hsent : polled.sent = [])
  | handled (buf : Bytes) (rest : List Bytes) (payload : FlashblocksPayload) (suffix : Bytes)
      (hinbound : link.inbound = buf :: rest)
      (hdecode : decodeMsg D buf = .ok (.flashblocksPayloadV1 payload, suffix))
      (handled : FlashblocksConnection × Handled)
      (hhandled : link.connection.handleFlashblocksPayloadV1 (encode D) now state payload = handled)
      (hconnection : polled.next.connection = handled.1)
      (hstate : polled.next.state = handled.2.state) (hsent : polled.sent = handled.2.sent)
      (hchanges : polled.reputationChanges = handled.2.reputationChange.toList)

theorem received (D : Codecs FlashblockMetadata) (link : Link) (now : Int)
    (state : FlashblocksP2PState) : Received D link now state (receive D link now state) := by
  cases hinbound : link.inbound with
  | nil =>
      have hreceive : receive D link now state =
          Poll.round D ⟨link.connection, state, [], [], true⟩ := by
        rw [receive, hinbound]
        rfl
      rw [hreceive]
      exact .idle hinbound rfl rfl rfl rfl
  | cons buf rest =>
      have hreceive : receive D link now state =
          Poll.round D ⟨link.connection, state, [], [(now, buf)], true⟩ := by
        rw [receive, hinbound]
        rfl
      rw [hreceive]
      cases hdecode : decodeMsg D buf with
      | error e =>
          refine .garbled buf rest e hinbound hdecode ?_ ?_
          · cases e <;> simp [Poll.round, hdecode]
          · cases e <;> simp [Poll.round, hdecode]
      | ok decoded =>
          obtain ⟨⟨payload⟩, suffix⟩ := decoded
          refine .handled buf rest payload suffix hinbound hdecode _ rfl ?_ ?_ ?_ ?_
          all_goals simp [Poll.round, hdecode]

/-- To the node it is one `publish` of what was decoded, or nothing. -/
theorem Received.effect {link : Link} {now : Int} {state : FlashblocksP2PState} {polled : Polled}
    (h : Received D link now state polled) :
    (∃ payload suffix,
      link.inbound.head?.map (decodeMsg D) = some (.ok (.flashblocksPayloadV1 payload, suffix)) ∧
        link.connection.forwards payload ∧
        polled.next.state = (publish (encode D) now state payload).1 ∧
        polled.sent = (publish (encode D) now state payload).2) ∨
      (polled.next.state = state ∧ polled.sent = []) := by
  cases h with
  | idle hinbound hconnection hstate hsent hchanges => exact .inr ⟨hstate, hsent⟩
  | garbled buf rest e hinbound hdecode hstate hsent => exact .inr ⟨hstate, hsent⟩
  | handled buf rest payload suffix hinbound hdecode handled hhandled hconnection hstate hsent
      hchanges =>
      have heffect := handle_state (encode D) now link.connection state payload
      rw [hhandled] at heffect
      rw [hstate, hsent, heffect.1, heffect.2]
      by_cases hforwards : link.connection.forwards payload
      · refine .inl ⟨payload, suffix, ?_, hforwards, if_pos hforwards, if_pos hforwards⟩
        rw [hinbound, List.head?_cons, Option.map_some, hdecode]
      · exact .inr ⟨if_neg hforwards, if_neg hforwards⟩

theorem outbound_quiet (net : Network ι) (node peer : ι) :
    (net.step D linked (.outbound node peer)).2 = [] := by
  simp only [Network.step]
  split
  · rfl
  · split <;> rfl

theorem deliver_quiet (net : Network ι) (sender receiver : ι) :
    (net.step D linked (.deliver sender receiver)).2 = [] := by
  simp only [Network.step]
  split <;> rfl

/-- What an event does to the ordering state of one node: one `publish` or nothing. -/
theorem step_node (net : Network ι) (event : Event ι) (n : ι) :
    (∃ now payload, net.published D event = some (n, payload) ∧
      (net.step D linked event).1.states n = (publish (encode D) now (net.states n) payload).1 ∧
      sentBy n (net.step D linked event).2 = (publish (encode D) now (net.states n) payload).2) ∨
    ((net.step D linked event).1.states n = net.states n ∧
      sentBy n (net.step D linked event).2 = []) := by
  cases event with
  | publishNew node now payload =>
      by_cases hn : n = node
      · subst hn
        exact .inl ⟨now, payload, rfl, by simp [Network.step], by simp [Network.step]⟩
      · exact .inr ⟨by simp [Network.step, hn], by simp [Network.step, hn]⟩
  | outbound node peer =>
      right
      simp only [Network.step]
      split
      · exact ⟨rfl, rfl⟩
      · split <;> exact ⟨rfl, rfl⟩
  | deliver sender receiver =>
      right
      simp only [Network.step]
      split <;> exact ⟨rfl, rfl⟩
  | inbound node peer now =>
      by_cases hreceiving : (net.links node peer).receiving
      · have heffect := (received D (net.links node peer) now (net.states node)).effect
        simp only [Network.step, hreceiving, ↓reduceIte, broadcast_states, setState_states,
          setLink_states, sentBy_append, sentBy_sent, sentBy_reputationChange, List.append_nil]
        by_cases hn : n = node
        · subst hn
          rw [if_pos rfl, if_pos rfl]
          rcases heffect with ⟨payload, suffix, hdecode, hforwards, hstate, hsent⟩ | hnothing
          · refine .inl ⟨now, payload, ?_, hstate, hsent⟩
            simp [Network.published, hreceiving, hdecode, hforwards]
          · exact .inr hnothing
        · rw [if_neg hn, if_neg hn]
          exact .inr ⟨rfl, rfl⟩
      · right
        simp only [Network.step, hreceiving, Bool.false_eq_true, ↓reduceIte]
        exact ⟨trivial, rfl⟩

end WorldChain.P2p.Peers
