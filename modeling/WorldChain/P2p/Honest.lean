import WorldChain.P2p.AcrossPayloads
import WorldChain.P2p.Peers

/-! Honest peers. A node sends to a peer what it gossips, in the same order, so
the peer handles a flashblock twice only if the node gossips it twice. -/
namespace WorldChain.P2p.Honest
open Library Library.Runs Wire.Primitives Wire.Message Wire.Alloy
open Publish OrderedState Connection Gossip Poll Peers AcrossPayloads

variable {ι : Type} [DecidableEq ι] {D : Codecs FlashblockMetadata} {linked : ι → ι → Bool}

def msgOf (D : Codecs FlashblockMetadata) (payload : FlashblocksPayload) : PeerMsg :=
  .flashblocksPayloadV1 payload.payloadId payload.index.toNat (encode D payload)

/-- Flashblocks that have arrived at the peer, are on the wire, or are queued
for it. With those it has handled they are among the gossiped ones, in order. -/
structure InTransit (D : Codecs FlashblockMetadata) (connection : FlashblocksConnection)
    (inbound wire : List Bytes) (peerRx : List PeerRxItem) (gossiped : List (PayloadId × Nat))
    (handled : List (PayloadId × Nat)) (arrived flying queued : List FlashblocksPayload) : Prop where
  inbound : inbound = arrived.map (encode D)
  wire : wire = flying.map (encode D)
  peerRx : peerRx = queued.map fun payload => .ok (msgOf D payload)
  fits : ∀ payload ∈ arrived ++ flying ++ queued, (encode D payload).length ≤ maxFrame
  gossiped : List.Sublist (handled ++ (arrived ++ flying ++ queued).map payloadKey) gossiped
  marked : ∀ key, connection.Marked key → key ∈ handled

def Relayed (D : Codecs FlashblockMetadata) (connection : FlashblocksConnection)
    (inbound wire : List Bytes) (peerRx : List PeerRxItem) (gossiped : List (PayloadId × Nat)) :
    Prop :=
  ∃ handled arrived flying queued,
    InTransit D connection inbound wire peerRx gossiped handled arrived flying queued

variable {connection : FlashblocksConnection} {inbound wire : List Bytes}
variable {peerRx : List PeerRxItem} {gossiped : List (PayloadId × Nat)}

theorem relayed_start : Relayed D {} [] [] [] [] := by
  refine ⟨[], [], [], [], rfl, rfl, rfl, ?_, .refl _, ?_⟩
  · intro payload hmem
    cases hmem
  · intro key hmarked
    simp [FlashblocksConnection.Marked] at hmarked

theorem peerTx_publish (D : Codecs FlashblockMetadata) (now : Int) (state : FlashblocksP2PState)
    (payload : FlashblocksPayload) :
    ∃ payloads : List FlashblocksPayload, (∀ sent ∈ payloads, (encode D sent).length ≤ maxFrame) ∧
      peerTx (publish (encode D) now state payload).2 = payloads.map (msgOf D) := by
  rcases publish_cases (encode D) now state payload with
    ⟨_, heq⟩ | ⟨_, _, heq⟩ | ⟨_, _, _, heq⟩ | ⟨_, _, hframe, heq⟩
  · exact ⟨[], by simp, by simp [heq]⟩
  · exact ⟨[], by simp, by simp [heq]⟩
  · exact ⟨[], by simp, by simp [heq]⟩
  · exact ⟨[payload], by simpa using hframe, by simp [heq, msgOf]⟩

theorem gossipedKeys_of_peerTx {sent : List Sent} {payloads : List FlashblocksPayload}
    (h : peerTx sent = payloads.map (msgOf D)) : gossipedKeys sent = payloads.map payloadKey := by
  rw [gossipedKeys, h, List.map_map]
  rfl

theorem Relayed.mono (h : Relayed D connection inbound wire peerRx gossiped)
    (more : List (PayloadId × Nat)) :
    Relayed D connection inbound wire peerRx (gossiped ++ more) := by
  obtain ⟨handled, arrived, flying, queued, h⟩ := h
  refine ⟨handled, arrived, flying, queued, h.inbound, h.wire, h.peerRx, h.fits, ?_, h.marked⟩
  exact h.gossiped.trans (List.sublist_append_left _ _)

theorem Relayed.broadcast (h : Relayed D connection inbound wire peerRx gossiped)
    {sent : List Sent} {payloads : List FlashblocksPayload}
    (hfits : ∀ payload ∈ payloads, (encode D payload).length ≤ maxFrame)
    (hsent : peerTx sent = payloads.map (msgOf D)) :
    Relayed D connection inbound wire (peerRx ++ (peerTx sent).map .ok)
      (gossiped ++ gossipedKeys sent) := by
  obtain ⟨handled, arrived, flying, queued, h⟩ := h
  refine ⟨handled, arrived, flying, queued ++ payloads, h.inbound, h.wire, ?_, ?_, ?_, h.marked⟩
  · rw [h.peerRx, hsent, List.map_append, List.map_map]
    rfl
  · intro payload hmem
    rw [← List.append_assoc] at hmem
    rcases List.mem_append.mp hmem with hold | hnew
    · exact h.fits payload hold
    · exact hfits payload hnew
  · rw [gossipedKeys_of_peerTx hsent, ← List.append_assoc, List.map_append, ← List.append_assoc]
    exact h.gossiped.append (.refl _)

theorem Relayed.drop (h : Relayed D connection inbound wire peerRx gossiped) :
    Relayed D connection inbound wire peerRx.tail gossiped := by
  obtain ⟨handled, arrived, flying, queued, h⟩ := h
  have hsub : List.Sublist (arrived ++ flying ++ queued.tail) (arrived ++ flying ++ queued) :=
    (List.Sublist.refl _).append (List.tail_sublist queued)
  refine ⟨handled, arrived, flying, queued.tail, h.inbound, h.wire, ?_, ?_, ?_, h.marked⟩
  · rw [h.peerRx, List.map_tail]
  · exact fun sent hmem => h.fits sent (hsub.mem hmem)
  · exact ((List.Sublist.refl handled).append (hsub.map payloadKey)).trans h.gossiped

theorem toSend_msgOf {self : FlashblocksConnection} {payload : FlashblocksPayload} {bytes : Bytes}
    (h : toSend self (.ok (msgOf D payload)) = some bytes) : bytes = encode D payload := by
  have hbytes := Option.mem_def.mpr h
  unfold msgOf toSend at hbytes
  rw [Option.mem_ite_none_right] at hbytes
  exact (Option.some.inj hbytes.2).symm

theorem Relayed.send {self : FlashblocksConnection} {item : PeerRxItem} {rest : List PeerRxItem}
    {bytes : Bytes} (h : Relayed D connection inbound wire (item :: rest) gossiped)
    (hsend : toSend self item = some bytes) :
    Relayed D connection inbound (wire ++ [bytes]) rest gossiped := by
  obtain ⟨handled, arrived, flying, queued, h⟩ := h
  cases queued with
  | nil => cases h.peerRx
  | cons payload queued =>
      obtain ⟨hitem, hrest⟩ := List.cons.inj h.peerRx
      have hbytes : bytes = encode D payload := by
        rw [hitem] at hsend
        exact toSend_msgOf hsend
      have hmove : arrived ++ (flying ++ [payload]) ++ queued =
          arrived ++ flying ++ payload :: queued := by simp
      refine ⟨handled, arrived, flying ++ [payload], queued, h.inbound, ?_, hrest, ?_, ?_, h.marked⟩
      · rw [h.wire, hbytes, List.map_append, List.map_singleton]
      · rw [hmove]
        exact h.fits
      · rw [hmove]
        exact h.gossiped

theorem Relayed.deliver {bytes : Bytes} {rest : List Bytes}
    (h : Relayed D connection inbound (bytes :: rest) peerRx gossiped) :
    Relayed D connection (inbound ++ [bytes]) rest peerRx gossiped := by
  obtain ⟨handled, arrived, flying, queued, h⟩ := h
  cases flying with
  | nil => cases h.wire
  | cons payload flying =>
      obtain ⟨hbytes, hrest⟩ := List.cons.inj h.wire
      have hmove : arrived ++ [payload] ++ flying ++ queued =
          arrived ++ payload :: flying ++ queued := by simp
      refine ⟨handled, arrived ++ [payload], flying, queued, ?_, hrest, h.peerRx, ?_, ?_, h.marked⟩
      · rw [h.inbound, hbytes, List.map_append, List.map_singleton]
      · rw [hmove]
        exact h.fits
      · rw [hmove]
        exact h.gossiped

theorem decodeMsg_encode (hD : D.Lawful) {payload : FlashblocksPayload}
    (hfits : (encode D payload).length ≤ maxFrame) :
    decodeMsg D (encode D payload) = .ok (.flashblocksPayloadV1 payload, []) := by
  have hlimit : maxFrame ≤ Rlp.limit := by decide
  have hdecode := (msg_lawful hD).decode (.flashblocksPayloadV1 payload) []
  simp only [msgCodec, List.append_nil] at hdecode
  exact hdecode (Nat.le_trans hfits hlimit)

/-- What has arrived first is a flashblock that carries no mark: it has been
gossiped once, so it has not been handled. -/
theorem InTransit.first (hD : D.Lawful) {handled : List (PayloadId × Nat)}
    {arrived flying queued : List FlashblocksPayload}
    (h : InTransit D connection inbound wire peerRx gossiped handled arrived flying queued)
    (hnodup : gossiped.Nodup) {buf : Bytes} {rest : List Bytes} (hinbound : inbound = buf :: rest) :
    ∃ payload others, arrived = payload :: others ∧ rest = others.map (encode D) ∧
      decodeMsg D buf = .ok (.flashblocksPayloadV1 payload, []) ∧
      ¬connection.Marked (payloadKey payload) := by
  have harrived := h.inbound
  rw [hinbound] at harrived
  cases arrived with
  | nil => cases harrived
  | cons payload others =>
      obtain ⟨hbuf, hrest⟩ := List.cons.inj harrived
      refine ⟨payload, others, rfl, hrest, ?_, ?_⟩
      · rw [hbuf]
        exact decodeMsg_encode hD (h.fits payload (by simp))
      · intro hmarked
        have hgossiped := h.gossiped.nodup hnodup
        rw [List.cons_append, List.cons_append, List.map_cons] at hgossiped
        have hdisjoint := (List.nodup_append.mp hgossiped).2.2
        exact hdisjoint _ (h.marked _ hmarked) _ List.mem_cons_self rfl

theorem InTransit.handle {handled : List (PayloadId × Nat)} {payload : FlashblocksPayload}
    {arrived flying queued : List FlashblocksPayload}
    (h : InTransit D connection inbound wire peerRx gossiped handled (payload :: arrived) flying
      queued)
    {next : FlashblocksConnection} {rest : List Bytes} (hrest : rest = arrived.map (encode D))
    (hmarks : ∀ key, next.Marked key → key = payloadKey payload ∨ connection.Marked key) :
    InTransit D next rest wire peerRx gossiped (handled ++ [payloadKey payload]) arrived flying
      queued := by
  refine ⟨hrest, h.wire, h.peerRx, ?_, ?_, ?_⟩
  · exact fun sent hmem => h.fits sent (List.mem_cons_of_mem _ hmem)
  · rw [List.append_assoc]
    exact h.gossiped
  · intro key hmarked
    rcases hmarks key hmarked with heq | hold
    · rw [heq]
      exact List.mem_append_right _ List.mem_cons_self
    · exact List.mem_append_left _ (h.marked key hold)

theorem Relayed.receive (hD : D.Lawful) {link : Link}
    (h : Relayed D link.connection link.inbound wire peerRx gossiped) (hnodup : gossiped.Nodup)
    {now : Int} {state : FlashblocksP2PState} {polled : Polled}
    (hreceived : Received D link now state polled) :
    polled.reputationChanges = [] ∧
      Relayed D polled.next.connection link.inbound.tail wire peerRx gossiped := by
  cases hreceived with
  | idle hinbound hconnection hstate hsent hchanges =>
      rw [hinbound] at h
      rw [hconnection, hinbound]
      exact ⟨hchanges, h⟩
  | garbled buf rest e hinbound hdecode hstate hsent =>
      obtain ⟨handled, arrived, flying, queued, h⟩ := h
      obtain ⟨payload, others, _, _, hdecoded, _⟩ := h.first hD hnodup hinbound
      rw [hdecoded] at hdecode
      cases hdecode
  | handled buf rest payload suffix hinbound hdecode result hhandled hconnection hstate hsent
      hchanges =>
      obtain ⟨handled, arrived, flying, queued, h⟩ := h
      obtain ⟨first, others, rfl, hrest, hdecoded, hunmarked⟩ := h.first hD hnodup hinbound
      rw [hdecoded] at hdecode
      cases hdecode
      have hmarks := handle_marks (encode D) now link.connection state payload
      rw [hhandled] at hmarks
      rw [hchanges, hconnection, hinbound, hmarks.1 hunmarked]
      exact ⟨rfl, _, others, flying, queued, h.handle hrest hmarks.2⟩

theorem peerTx_received {link : Link} {now : Int} {state : FlashblocksP2PState} {polled : Polled}
    (hreceived : Received D link now state polled) :
    ∃ payloads : List FlashblocksPayload, (∀ sent ∈ payloads, (encode D sent).length ≤ maxFrame) ∧
      peerTx polled.sent = payloads.map (msgOf D) := by
  rcases hreceived.effect with ⟨payload, _, _, _, _, hsent⟩ | ⟨_, hsent⟩
  · rw [hsent]
    exact peerTx_publish D now state payload
  · rw [hsent]
    exact ⟨[], by simp, rfl⟩

def Pair (D : Codecs FlashblockMetadata) (net : Network ι) (sender receiver : ι)
    (gossiped : List (PayloadId × Nat)) : Prop :=
  Relayed D (net.links receiver sender).connection (net.links receiver sender).inbound
    (net.wires sender receiver) (net.links sender receiver).peerRx gossiped

theorem pair_broadcast {net : Network ι} {n m : ι} (h : Pair D net n m gossiped) (node : ι)
    {sent : List Sent} {payloads : List FlashblocksPayload}
    (hfits : ∀ payload ∈ payloads, (encode D payload).length ≤ maxFrame)
    (hsent : peerTx sent = payloads.map (msgOf D)) :
    Pair D (net.broadcast linked node sent) n m
      (gossiped ++ gossipedKeys (if n = node then sent else [])) := by
  unfold Pair
  rw [broadcast_connection, broadcast_inbound, broadcast_wires, broadcast_peerRx]
  by_cases hn : n = node
  · rw [if_pos hn]
    by_cases hlinked : linked n m
    · rw [if_pos ⟨hn, hlinked⟩]
      exact h.broadcast hfits hsent
    · rw [if_neg fun hboth => hlinked hboth.2]
      exact h.mono _
  · rw [if_neg hn, if_neg fun hboth => hn hboth.1]
    exact h.mono _

theorem pair_setLink_queue {net : Network ι} {node peer n m : ι} {link : Link}
    (hconnection : link.connection = (net.links node peer).connection)
    (hinbound : link.inbound = (net.links node peer).inbound) {wire : List Bytes}
    (h : Relayed D (net.links m n).connection (net.links m n).inbound wire
      (if n = node ∧ m = peer then link.peerRx else (net.links n m).peerRx) gossiped) :
    Relayed D ((net.setLink node peer link).links m n).connection
      ((net.setLink node peer link).links m n).inbound wire
      ((net.setLink node peer link).links n m).peerRx gossiped := by
  rw [setLink_same Link.connection hconnection, setLink_same Link.inbound hinbound, setLink_links]
  split at h
  · rename_i hpair
    rwa [if_pos hpair]
  · rename_i hpair
    rwa [if_neg hpair]

theorem pair_setLink_arrived {net : Network ι} {node peer n m : ι} {link : Link}
    (hpeerRx : link.peerRx = (net.links node peer).peerRx) {wire : List Bytes}
    (h : Relayed D (if m = node ∧ n = peer then link else net.links m n).connection
      (if m = node ∧ n = peer then link else net.links m n).inbound wire
      (net.links n m).peerRx gossiped) :
    Relayed D ((net.setLink node peer link).links m n).connection
      ((net.setLink node peer link).links m n).inbound wire
      ((net.setLink node peer link).links n m).peerRx gossiped := by
  rw [setLink_same Link.peerRx hpeerRx]
  exact h

theorem pair_outbound {net : Network ι} {n m : ι} (h : Pair D net n m gossiped)
    (node peer : ι) : Pair D (net.step D linked (.outbound node peer)).1 n m gossiped := by
  simp only [Network.step]
  by_cases hreceiving : (net.links node peer).receiving
  · rwa [if_pos hreceiving]
  rw [if_neg hreceiving]
  cases hsend : (net.links node peer).peerRx.head?.bind
      (toSend (net.links node peer).connection) with
  | none =>
      apply pair_setLink_queue
      · rfl
      · rfl
      by_cases hpair : n = node ∧ m = peer
      · rw [if_pos hpair, ← hpair.1, ← hpair.2]
        exact h.drop
      · rw [if_neg hpair]
        exact h
  | some bytes =>
      apply pair_setLink_queue
      · rfl
      · rfl
      rw [setWire_wires]
      by_cases hpair : n = node ∧ m = peer
      · rw [if_pos hpair, if_pos hpair]
        rw [← hpair.1, ← hpair.2] at hsend ⊢
        obtain ⟨item, hitem, hbytes⟩ := Option.bind_eq_some_iff.mp hsend
        obtain ⟨rest, hqueue⟩ := List.head?_eq_some_iff.mp hitem
        unfold Pair at h
        rw [hqueue] at h
        rw [hqueue]
        exact h.send hbytes
      · rw [if_neg hpair, if_neg hpair]
        exact h

theorem pair_deliver {net : Network ι} {n m : ι} (h : Pair D net n m gossiped)
    (sender receiver : ι) :
    Pair D (net.step D linked (.deliver sender receiver)).1 n m gossiped := by
  simp only [Network.step]
  cases hwire : net.wires sender receiver with
  | nil => exact h
  | cons bytes wire =>
      apply pair_setLink_arrived
      · rfl
      rw [setWire_wires]
      by_cases hpair : n = sender ∧ m = receiver
      · rw [if_pos hpair, if_pos hpair.symm]
        rw [← hpair.1, ← hpair.2] at hwire ⊢
        unfold Pair at h
        rw [hwire] at h
        exact h.deliver
      · rw [if_neg hpair, if_neg fun hlink => hpair hlink.symm]
        exact h

theorem pair_inbound (hD : D.Lawful) {net : Network ι} {sent : ι → List (PayloadId × Nat)}
    (hpairs : ∀ n m, Pair D net n m (sent n)) (hnodup : ∀ n, (sent n).Nodup) (node peer : ι)
    (now : Int) :
    reputationChanges (net.step D linked (.inbound node peer now)).2 = [] ∧
      ∀ n m, Pair D (net.step D linked (.inbound node peer now)).1 n m
        (sent n ++ gossipedKeys (sentBy n (net.step D linked (.inbound node peer now)).2)) := by
  simp only [Network.step]
  by_cases hreceiving : (net.links node peer).receiving
  · have hreceived := received D (net.links node peer) now (net.states node)
    rw [if_pos hreceiving]
    generalize receive D (net.links node peer) now (net.states node) = polled at hreceived ⊢
    obtain ⟨hsilent, hrelayed⟩ := (hpairs peer node).receive hD (hnodup peer) hreceived
    obtain ⟨payloads, hfits, hpeerTx⟩ := peerTx_received hreceived
    constructor
    · rw [hsilent]
      simp
    · intro n m
      rw [sentBy_append, sentBy_sent, sentBy_reputationChange, List.append_nil]
      refine pair_broadcast ?_ node hfits hpeerTx
      apply pair_setLink_arrived
      · rfl
      by_cases hpair : m = node ∧ n = peer
      · rw [if_pos hpair, hpair.1, hpair.2]
        exact hrelayed
      · rw [if_neg hpair]
        exact hpairs n m
  · rw [if_neg hreceiving]
    refine ⟨rfl, ?_⟩
    intro n m
    simpa [sentBy, gossipedKeys] using hpairs n m

/-- One event: nothing is penalised, and all pairs stay in order. -/
theorem pairs_step (hD : D.Lawful) {net : Network ι} {sent : ι → List (PayloadId × Nat)}
    (hpairs : ∀ n m, Pair D net n m (sent n)) (hnodup : ∀ n, (sent n).Nodup) (event : Event ι) :
    reputationChanges (net.step D linked event).2 = [] ∧
      ∀ n m, Pair D (net.step D linked event).1 n m
        (sent n ++ gossipedKeys (sentBy n (net.step D linked event).2)) := by
  cases event with
  | publishNew node now payload =>
      obtain ⟨payloads, hfits, hpeerTx⟩ := peerTx_publish D now (net.states node) payload
      refine ⟨reputationChanges_sent node _, ?_⟩
      intro n m
      simp only [Network.step, sentBy_sent]
      exact pair_broadcast (hpairs n m) node hfits hpeerTx
  | inbound node peer now => exact pair_inbound hD hpairs hnodup node peer now
  | outbound node peer =>
      rw [outbound_quiet]
      refine ⟨rfl, fun n m => ?_⟩
      simpa [sentBy, gossipedKeys] using pair_outbound (hpairs n m) node peer
  | deliver sender receiver =>
      rw [deliver_quiet]
      refine ⟨rfl, fun n m => ?_⟩
      simpa [sentBy, gossipedKeys] using pair_deliver (hpairs n m) sender receiver

/-- A node never returns to a payload of which it has sent something. -/
def MovesOn (D : Codecs FlashblockMetadata) (r : Network ι × List (Output ι)) (event : Event ι) :
    Prop :=
  ∀ call ∈ r.1.published D event, call.2.payloadId ≠ (r.1.states call.1).payloadId →
    ∀ key ∈ emittedKeys (sentBy call.1 r.2) ++ gossipedKeys (sentBy call.1 r.2),
      key.1 ≠ call.2.payloadId

instance (D : Codecs FlashblockMetadata) (r : Network ι × List (Output ι)) (event : Event ι) :
    Decidable (MovesOn D r event) :=
  inferInstanceAs (Decidable (∀ call ∈ r.1.published D event,
    call.2.payloadId ≠ (r.1.states call.1).payloadId →
      ∀ key ∈ emittedKeys (sentBy call.1 r.2) ++ gossipedKeys (sentBy call.1 r.2),
        key.1 ≠ call.2.payloadId))

/-- Every node sends a flashblock once, and the peers have seen it so. -/
structure Orderly (D : Codecs FlashblockMetadata) (r : Network ι × List (Output ι)) : Prop where
  once : ∀ n, SentOnce (r.1.states n) (sentBy n r.2)
  pairs : ∀ n m, Pair D r.1 n m (gossipedKeys (sentBy n r.2))
  silent : reputationChanges r.2 = []

theorem orderly_start : Orderly D (({}, []) : Network ι × List (Output ι)) :=
  ⟨fun _ => sentOnce_start, fun _ _ => relayed_start, rfl⟩

theorem sentOnce_step {r : Network ι × List (Output ι)} {event : Event ι} {n : ι}
    (h : SentOnce (r.1.states n) (sentBy n r.2)) (hcond : MovesOn D r event) :
    SentOnce ((r.1.step D linked event).1.states n)
      (sentBy n (r.2 ++ (r.1.step D linked event).2)) := by
  rw [sentBy_append]
  rcases @step_node _ _ D linked r.1 event n with
    ⟨now, payload, hpublished, hstate, hsent⟩ | ⟨hstate, hsent⟩
  · rw [hstate, hsent]
    exact h.publish (hcond (n, payload) hpublished) (encode D) now
  · rw [hstate, hsent, List.append_nil]
    exact h

theorem Orderly.step (hD : D.Lawful) {r : Network ι × List (Output ι)} {event : Event ι}
    (h : Orderly D r) (hcond : MovesOn D r event) :
    Orderly D ((r.1.step D linked event).1, r.2 ++ (r.1.step D linked event).2) := by
  have hpairs := @pairs_step _ _ D linked hD _ _ h.pairs (fun n => (h.once n).once.gossiped) event
  refine ⟨fun n => sentOnce_step (h.once n) hcond, fun n m => ?_, ?_⟩
  · rw [sentBy_append, gossipedKeys_append]
    exact hpairs.2 n m
  · rw [reputationChanges_append, h.silent, hpairs.1]
    rfl

/-- Whoever publishes what, over any links, nobody is penalised in a run in
which every node moves on. -/
theorem never_penalised (hD : D.Lawful) (linked : ι → ι → Bool) (events : List (Event ι))
    (hmeets : Meets (Network.step D linked) (MovesOn D) {} events) :
    reputationChanges (exec (Network.step D linked) {} events).2 = [] :=
  (exec_invariant (Orderly D) orderly_start (fun _ _ h hcond => h.step hD hcond) hmeets).silent

theorem never_penalised_two_payloads :
    reputationChanges (exec (Network.step sampleCodecs fun n m : Fin 2 => n ≠ m) {}
      [.publishNew 0 20 (timed 1 0 1), .outbound 0 1, .deliver 0 1, .outbound 1 0,
        .inbound 1 0 21, .publishNew 0 22 (timed 2 0 2)]).2 = [] := by
  apply never_penalised sample_lawful
  exact .concat (.concat (.concat (.concat (.concat (.concat .nil (by decide +kernel))
    (by decide +kernel)) (by decide +kernel)) (by decide +kernel)) (by decide +kernel))
    (by decide +kernel)

def publishedNew (events : List (Event ι)) : List (ι × FlashblocksPayload) :=
  events.filterMap fun
    | .publishNew node _ payload => some (node, payload)
    | .outbound _ _ | .inbound _ _ _ | .deliver _ _ => none

def Continues (last next : FlashblocksPayload) : Prop :=
  if next.payloadId = last.payloadId then next.index.toNat = last.index.toNat + 1
  else next.index = 0 ∧ next.base.isSome ∧ OlderThan last next

structure PublishedBy (publisher : ι) (events : List (Event ι)) : Prop where
  alone : ∀ call ∈ publishedNew events, call.1 = publisher
  first : ∀ call ∈ (publishedNew events).head?, call.2.index = 0
  continues : ((publishedNew events).map Prod.snd).IsChain Continues
  later : ((publishedNew events).map Prod.snd).Pairwise fun older newer =>
    older.payloadId ≠ newer.payloadId → OlderThan older newer
  once : ((publishedNew events).map fun call => payloadKey call.2).Nodup

def fourNodes (n m : Fin 4) : Bool := n ≠ m && (n < 2 || m < 2)

/-- Payload 1 reaches node 3 over node 1; what 0 has sent to 3 and 2 to 1 is on its way. -/
def firstPayload : List (Event (Fin 4)) :=
  [.publishNew 0 1 (timed 1 0 1), .outbound 0 1, .outbound 0 2,
    .deliver 0 1, .outbound 1 0, .inbound 1 0 2, .outbound 1 3,
    .deliver 0 2, .outbound 2 0, .inbound 2 0 3, .outbound 2 1,
    .deliver 1 3, .outbound 3 1, .inbound 3 1 4, .outbound 3 1, .inbound 3 1 5]

/-- Payload 2 reaches node 1 over node 3. -/
def secondPayload : List (Event (Fin 4)) :=
  [.publishNew 0 6 (timed 2 0 2), .outbound 0 3, .outbound 0 3, .deliver 0 3, .deliver 0 3,
    .outbound 3 0, .outbound 3 0, .inbound 3 0 7, .outbound 3 0, .inbound 3 0 8,
    .outbound 3 1, .deliver 3 1, .outbound 1 3, .inbound 1 3 9]

/-- The flashblock of payload 1 from node 2 reaches node 1, which gossips it again. -/
def lateFlashblock : List (Event (Fin 4)) :=
  [.deliver 2 1, .outbound 1 2, .outbound 1 2, .outbound 1 2, .inbound 1 2 10,
    .outbound 1 3, .inbound 1 3 11, .outbound 1 3, .deliver 1 3, .outbound 3 1, .inbound 3 1 12]

theorem honest_peer_penalised :
    ¬∀ (events : List (Event (Fin 4))), PublishedBy 0 events →
      reputationChanges (exec (Network.step sampleCodecs fourNodes) {} events).2 = [] := by
  intro hall
  have hpublished : publishedNew (firstPayload ++ secondPayload ++ lateFlashblock) =
      [(0, timed 1 0 1), (0, timed 2 0 2)] := rfl
  have honest : PublishedBy 0 (firstPayload ++ secondPayload ++ lateFlashblock) := by
    apply PublishedBy.mk
    all_goals rw [hpublished]
    all_goals simp [Continues, OlderThan, timed, FlashblocksPayload.bare, payloadKey]
  exact absurd (hall _ honest) (by decide +kernel)

end WorldChain.P2p.Honest
