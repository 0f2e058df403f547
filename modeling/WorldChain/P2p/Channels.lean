import WorldChain.P2p.Honest

/-! The network with one channel from a node to a peer: the queue of the
connection, the wire and what has arrived are parts of it. -/
namespace WorldChain.P2p.Channels
open Library Library.Runs Wire.Primitives Wire.Message Wire.Alloy
open Publish Connection Poll Peers Honest

variable {ι : Type}

structure Mesh (ι : Type) where
  states : ι → FlashblocksP2PState := fun _ => {}
  connections : ι → ι → FlashblocksConnection := fun _ _ => {}
  /-- Gossiped by the first node and not yet handled by the second, oldest first. -/
  underway : ι → ι → List FlashblocksPayload := fun _ _ => []

def passedOn (D : Codecs FlashblockMetadata) (now : Int) (state : FlashblocksP2PState)
    (payload : FlashblocksPayload) : List FlashblocksPayload :=
  if peerTx (publish (encode D) now state payload).2 = [] then [] else [payload]

theorem peerTx_passedOn (D : Codecs FlashblockMetadata) (now : Int) (state : FlashblocksP2PState)
    (payload : FlashblocksPayload) :
    peerTx (publish (encode D) now state payload).2 =
        (passedOn D now state payload).map (msgOf D) ∧
      ∀ sent ∈ passedOn D now state payload, sent = payload ∧
        (encode D payload).length ≤ maxFrame := by
  unfold passedOn
  rcases publish_cases (encode D) now state payload with
    ⟨_, heq⟩ | ⟨_, _, heq⟩ | ⟨_, _, _, heq⟩ | ⟨_, _, hframe, heq⟩
  · simp [heq]
  · simp [heq]
  · simp [heq]
  · simp [heq, msgOf, hframe]

variable [DecidableEq ι] (D : Codecs FlashblockMetadata) (linked : ι → ι → Bool)

def Mesh.publish (self : Mesh ι) (node : ι) (now : Int) (payload : FlashblocksPayload) :
    Mesh ι :=
  { self with
    states := fun n =>
      if n = node then (Publish.publish (encode D) now (self.states node) payload).1
      else self.states n
    underway := fun n m =>
      if n = node ∧ linked n m then self.underway n m ++ passedOn D now (self.states node) payload
      else self.underway n m }

def Mesh.setUnderway (self : Mesh ι) (sender receiver : ι)
    (payloads : List FlashblocksPayload) : Mesh ι :=
  { self with underway := fun n m =>
      if n = sender ∧ m = receiver then payloads else self.underway n m }

def Mesh.setConnection (self : Mesh ι) (node peer : ι)
    (connection : FlashblocksConnection) : Mesh ι :=
  { self with connections := fun n m =>
      if n = node ∧ m = peer then connection else self.connections n m }

/-- What may happen to a flashblock on its way: it is not sent, it is not passed on, or it
is handed to `publish`. -/
inductive Move (self : Mesh ι) : (ι → List Sent) → Mesh ι → Prop
  /-- The peer is known to have it. -/
  | withheld (sender receiver : ι) (before after : List FlashblocksPayload)
      (payload : FlashblocksPayload)
      (hunderway : self.underway sender receiver = before ++ payload :: after)
      (hmarked : (self.connections sender receiver).Marked (payloadKey payload)) :
      Move self (fun _ => []) (self.setUnderway sender receiver (before ++ after))
  | repeated (sender receiver : ι) (payload : FlashblocksPayload) (rest : List FlashblocksPayload)
      (connection : FlashblocksConnection)
      (hunderway : self.underway sender receiver = payload :: rest)
      (hstops : ¬(self.connections receiver sender).forwards payload)
      (hmarks : ∀ key, connection.Marked key → (self.connections receiver sender).Marked key) :
      Move self (fun _ => [])
        ((self.setUnderway sender receiver rest).setConnection receiver sender connection)
  | handled (sender receiver : ι) (now : Int) (payload : FlashblocksPayload)
      (rest : List FlashblocksPayload) (connection : FlashblocksConnection)
      (hunderway : self.underway sender receiver = payload :: rest)
      (hpasses : (self.connections receiver sender).forwards payload)
      (hmarks : ∀ key, connection.Marked key →
        key = payloadKey payload ∨ (self.connections receiver sender).Marked key) :
      Move self
        (fun n => if n = receiver then
          (publish (encode D) now (self.states receiver) payload).2 else [])
        (((self.setUnderway sender receiver rest).setConnection receiver sender
          connection).publish D linked receiver now payload)

/-- What one event of the network comes to: the call of `publish_new` in it, what
each node sends, and the channels afterwards. -/
inductive Turn (self : Mesh ι) : List (ι × FlashblocksPayload) → (ι → List Sent) → Mesh ι → Prop
  | idle : Turn self [] (fun _ => []) self
  | published (node : ι) (now : Int) (payload : FlashblocksPayload) :
      Turn self [(node, payload)]
        (fun n => if n = node then (publish (encode D) now (self.states node) payload).2 else [])
        (self.publish D linked node now payload)
  | moved (sent : ι → List Sent) (mesh' : Mesh ι) (hmove : Move D linked self sent mesh') :
      Turn self [] sent mesh'

def Pipe (inbound wire : List Bytes) (peerRx : List PeerRxItem)
    (underway : List FlashblocksPayload) : Prop :=
  ∃ arrived flying queued, arrived ++ flying ++ queued = underway ∧
    inbound = arrived.map (encode D) ∧ wire = flying.map (encode D) ∧
    peerRx = queued.map fun payload => .ok (msgOf D payload)

structure Represents (net : Network ι) (mesh : Mesh ι) : Prop where
  states : net.states = mesh.states
  connections : ∀ n m, (net.links n m).connection = mesh.connections n m
  pipes : ∀ n m, Pipe D (net.links m n).inbound (net.wires n m) (net.links n m).peerRx
    (mesh.underway n m)
  fits : ∀ n m, ∀ payload ∈ mesh.underway n m, (encode D payload).length ≤ maxFrame

variable {D linked}

theorem Pipe.queue {inbound wire : List Bytes} {peerRx : List PeerRxItem}
    {underway : List FlashblocksPayload} (h : Pipe D inbound wire peerRx underway)
    (more : List FlashblocksPayload) :
    Pipe D inbound wire (peerRx ++ (more.map (msgOf D)).map .ok) (underway ++ more) := by
  obtain ⟨arrived, flying, queued, rfl, hinbound, hwire, hpeerRx⟩ := h
  refine ⟨arrived, flying, queued ++ more, by simp, hinbound, hwire, ?_⟩
  rw [hpeerRx, List.map_append, List.map_map]
  rfl

theorem Pipe.head {inbound wire : List Bytes} {peerRx : List PeerRxItem} {item : PeerRxItem}
    {underway : List FlashblocksPayload} (h : Pipe D inbound wire (item :: peerRx) underway) :
    ∃ before payload after, underway = before ++ payload :: after ∧ item = .ok (msgOf D payload) ∧
      Pipe D inbound (wire ++ [encode D payload]) peerRx underway ∧
        Pipe D inbound wire peerRx (before ++ after) := by
  obtain ⟨arrived, flying, queued, rfl, hinbound, hwire, hpeerRx⟩ := h
  cases queued with
  | nil => cases hpeerRx
  | cons payload queued =>
      obtain ⟨hitem, hrest⟩ := List.cons.inj hpeerRx
      refine ⟨arrived ++ flying, payload, queued, rfl, hitem, ?_, ?_⟩
      · refine ⟨arrived, flying ++ [payload], queued, by simp, hinbound, ?_, hrest⟩
        rw [hwire, List.map_append, List.map_singleton]
      · exact ⟨arrived, flying, queued, rfl, hinbound, hwire, hrest⟩

theorem Pipe.deliver {inbound wire : List Bytes} {bytes : Bytes} {peerRx : List PeerRxItem}
    {underway : List FlashblocksPayload} (h : Pipe D inbound (bytes :: wire) peerRx underway) :
    Pipe D (inbound ++ [bytes]) wire peerRx underway := by
  obtain ⟨arrived, flying, queued, rfl, hinbound, hwire, hpeerRx⟩ := h
  cases flying with
  | nil => cases hwire
  | cons payload flying =>
      obtain ⟨hbytes, hrest⟩ := List.cons.inj hwire
      refine ⟨arrived ++ [payload], flying, queued, by simp, ?_, hrest, hpeerRx⟩
      rw [hinbound, hbytes, List.map_append, List.map_singleton]

theorem Pipe.take {inbound wire : List Bytes} {buf : Bytes} {peerRx : List PeerRxItem}
    {underway : List FlashblocksPayload} (h : Pipe D (buf :: inbound) wire peerRx underway) :
    ∃ payload rest, underway = payload :: rest ∧ buf = encode D payload ∧
      Pipe D inbound wire peerRx rest := by
  obtain ⟨arrived, flying, queued, rfl, hinbound, hwire, hpeerRx⟩ := h
  cases arrived with
  | nil => cases hinbound
  | cons payload arrived =>
      obtain ⟨hbuf, hrest⟩ := List.cons.inj hinbound
      exact ⟨payload, _, rfl, hbuf, arrived, flying, queued, rfl, hrest, hwire, hpeerRx⟩

theorem Represents.publish {net : Network ι} {mesh : Mesh ι} (h : Represents D net mesh)
    (node : ι) (now : Int) (payload : FlashblocksPayload) :
    Represents D
      ((net.setState node (Publish.publish (encode D) now (net.states node) payload).1).broadcast
        linked node (Publish.publish (encode D) now (net.states node) payload).2)
      (mesh.publish D linked node now payload) := by
  obtain ⟨hsent, hpassed⟩ := peerTx_passedOn D now (net.states node) payload
  rw [h.states] at hsent hpassed ⊢
  refine ⟨?_, ?_, ?_, ?_⟩
  · funext n
    simp only [broadcast_states, setState_states, Mesh.publish, h.states]
  · intro n m
    rw [broadcast_connection]
    exact h.connections n m
  · intro n m
    rw [broadcast_inbound, broadcast_wires, broadcast_peerRx, hsent]
    unfold Mesh.publish
    dsimp only
    split
    · exact (h.pipes n m).queue _
    · exact h.pipes n m
  · intro n m sent hmem
    unfold Mesh.publish at hmem
    dsimp only at hmem
    split at hmem
    · cases List.mem_append.mp hmem with
      | inl hold => exact h.fits n m sent hold
      | inr hnew =>
          obtain ⟨rfl, hfits⟩ := hpassed sent hnew
          exact hfits
    · exact h.fits n m sent hmem

omit [DecidableEq ι] in
theorem represents_start : Represents D ({} : Network ι) {} where
  states := rfl
  connections _ _ := rfl
  pipes _ _ := ⟨[], [], [], rfl, rfl, rfl, rfl⟩
  fits _ _ payload hmem := by cases hmem

theorem setWire_same (net : Network ι) (sender receiver : ι) :
    net.setWire sender receiver (net.wires sender receiver) = net := by
  unfold Network.setWire
  congr 1
  funext n m
  split
  · rename_i hpair
    rw [hpair.1, hpair.2]
  · rfl

theorem setUnderway_same (mesh : Mesh ι) (sender receiver : ι) :
    mesh.setUnderway sender receiver (mesh.underway sender receiver) = mesh := by
  unfold Mesh.setUnderway
  congr 1
  funext n m
  split
  · rename_i hpair
    rw [hpair.1, hpair.2]
  · rfl

theorem setConnection_same (mesh : Mesh ι) (node peer : ι) :
    mesh.setConnection node peer (mesh.connections node peer) = mesh := by
  unfold Mesh.setConnection
  congr 1
  funext n m
  split
  · rename_i hpair
    rw [hpair.1, hpair.2]
  · rfl

@[simp] theorem setWire_links (net : Network ι) (sender receiver : ι) (wire : List Bytes) :
    (net.setWire sender receiver wire).links = net.links := rfl

@[simp] theorem setUnderway_underway (mesh : Mesh ι) (sender receiver n m : ι)
    (payloads : List FlashblocksPayload) :
    (mesh.setUnderway sender receiver payloads).underway n m =
      if n = sender ∧ m = receiver then payloads else mesh.underway n m := rfl

@[simp] theorem setConnection_connections (mesh : Mesh ι) (node peer n m : ι)
    (connection : FlashblocksConnection) :
    (mesh.setConnection node peer connection).connections n m =
      if n = node ∧ m = peer then connection else mesh.connections n m := rfl

@[simp] theorem setConnection_underway (mesh : Mesh ι) (node peer : ι)
    (connection : FlashblocksConnection) :
    (mesh.setConnection node peer connection).underway = mesh.underway := rfl

theorem fits_setUnderway {net : Network ι} {mesh : Mesh ι} (h : Represents D net mesh)
    {sender receiver : ι} {payloads : List FlashblocksPayload}
    (hsub : ∀ payload ∈ payloads, payload ∈ mesh.underway sender receiver) (n m : ι) :
    ∀ payload ∈ (mesh.setUnderway sender receiver payloads).underway n m,
      (encode D payload).length ≤ maxFrame := by
  intro payload hmem
  rw [setUnderway_underway] at hmem
  split at hmem
  · exact h.fits _ _ payload (hsub payload hmem)
  · exact h.fits n m payload hmem

theorem Represents.sending {net : Network ι} {mesh : Mesh ι} (h : Represents D net mesh)
    {sender receiver : ι} (link : Link)
    (hconnection : link.connection = (net.links sender receiver).connection)
    (hinbound : link.inbound = (net.links sender receiver).inbound) {wire : List Bytes}
    {payloads : List FlashblocksPayload}
    (hpipe : Pipe D (net.links receiver sender).inbound wire link.peerRx payloads)
    (hsub : ∀ payload ∈ payloads, payload ∈ mesh.underway sender receiver) :
    Represents D ((net.setLink sender receiver link).setWire sender receiver wire)
      (mesh.setUnderway sender receiver payloads) := by
  refine ⟨h.states, ?_, ?_, fits_setUnderway h hsub⟩
  · intro n m
    exact (setLink_same Link.connection hconnection n m).trans (h.connections n m)
  · intro n m
    rw [setWire_links, setLink_same Link.inbound hinbound m n, setWire_wires,
      setUnderway_underway, setLink_links]
    by_cases hpair : n = sender ∧ m = receiver
    · rw [if_pos hpair, if_pos hpair, if_pos hpair, hpair.1, hpair.2]
      exact hpipe
    · rw [if_neg hpair, if_neg hpair, if_neg hpair]
      exact h.pipes n m

theorem Represents.queueing {net : Network ι} {mesh : Mesh ι} (h : Represents D net mesh)
    {sender receiver : ι} (link : Link)
    (hconnection : link.connection = (net.links sender receiver).connection)
    (hinbound : link.inbound = (net.links sender receiver).inbound)
    {payloads : List FlashblocksPayload}
    (hpipe : Pipe D (net.links receiver sender).inbound (net.wires sender receiver) link.peerRx
      payloads)
    (hsub : ∀ payload ∈ payloads, payload ∈ mesh.underway sender receiver) :
    Represents D (net.setLink sender receiver link) (mesh.setUnderway sender receiver payloads) := by
  have hnext := h.sending link hconnection hinbound hpipe hsub
  have hsame := setWire_same (net.setLink sender receiver link) sender receiver
  exact hsame ▸ hnext

theorem Represents.receiving {net : Network ι} {mesh : Mesh ι} (h : Represents D net mesh)
    {sender receiver : ι} (link : Link)
    (hpeerRx : link.peerRx = (net.links receiver sender).peerRx) {wire : List Bytes}
    {payloads : List FlashblocksPayload}
    (hpipe : Pipe D link.inbound wire (net.links sender receiver).peerRx payloads)
    (hsub : ∀ payload ∈ payloads, payload ∈ mesh.underway sender receiver) :
    Represents D ((net.setLink receiver sender link).setWire sender receiver wire)
      ((mesh.setUnderway sender receiver payloads).setConnection receiver sender
        link.connection) := by
  refine ⟨h.states, ?_, ?_, fits_setUnderway h hsub⟩
  · intro n m
    rw [setWire_links, setLink_links, setConnection_connections]
    split
    · rfl
    · exact h.connections n m
  · intro n m
    rw [setWire_links, setLink_same Link.peerRx hpeerRx n m, setWire_wires, setConnection_underway,
      setUnderway_underway, setLink_links]
    by_cases hpair : n = sender ∧ m = receiver
    · rw [if_pos hpair, if_pos hpair.symm, if_pos hpair, hpair.1, hpair.2]
      exact hpipe
    · rw [if_neg hpair, if_neg fun hlink => hpair hlink.symm, if_neg hpair]
      exact h.pipes n m

theorem Represents.handling {net : Network ι} {mesh : Mesh ι} (h : Represents D net mesh)
    {sender receiver : ι} (link : Link)
    (hpeerRx : link.peerRx = (net.links receiver sender).peerRx)
    {payloads : List FlashblocksPayload}
    (hpipe : Pipe D link.inbound (net.wires sender receiver) (net.links sender receiver).peerRx
      payloads)
    (hsub : ∀ payload ∈ payloads, payload ∈ mesh.underway sender receiver) :
    Represents D (net.setLink receiver sender link)
      ((mesh.setUnderway sender receiver payloads).setConnection receiver sender
        link.connection) := by
  have hnext := h.receiving link hpeerRx hpipe hsub
  have hsame := setWire_same (net.setLink receiver sender link) sender receiver
  exact hsame ▸ hnext

def Moves (D : Codecs FlashblockMetadata) (linked : ι → ι → Bool) (mesh : Mesh ι)
    (after : Network ι × List (Output ι)) : Prop :=
  ∃ sent mesh', Move D linked mesh sent mesh' ∧
    Represents D after.1 mesh' ∧ ∀ n, sentBy n after.2 = sent n

theorem marked_of_withheld {self : FlashblocksConnection} {payload : FlashblocksPayload}
    (h : toSend self (.ok (msgOf D payload)) = none) : self.Marked (payloadKey payload) := by
  unfold msgOf toSend at h
  dsimp only at h
  split at h
  · cases h
  · rename_i hmarked
    rw [not_or, not_not, not_not] at hmarked
    exact hmarked

/-- The first item of the queue goes onto the wire, unless the peer is known to have it. -/
theorem outbound_first {net : Network ι} {mesh : Mesh ι} (h : Represents D net mesh)
    {node peer : ι} (hready : ¬(net.links node peer).receiving) {item : PeerRxItem}
    {rest : List PeerRxItem} (hpeerRx : (net.links node peer).peerRx = item :: rest) :
    Moves D linked mesh (net.step D linked (.outbound node peer)) ∨
      ∃ bytes, net.step D linked (.outbound node peer) =
          ((net.setLink node peer { net.links node peer with peerRx := rest }).setWire node peer
            (net.wires node peer ++ [bytes]), []) ∧
        Represents D (net.step D linked (.outbound node peer)).1 mesh := by
  simp only [Network.step]
  have hpipe := h.pipes node peer
  rw [hpeerRx] at hpipe
  obtain ⟨before, payload, after, hunderway, hitem, hsent, hwithheld⟩ := hpipe.head
  rw [if_neg hready, hpeerRx, List.head?_cons, Option.bind_some, List.tail_cons]
  cases hsend : toSend (net.links node peer).connection item with
  | some bytes =>
      rw [hitem] at hsend
      rw [← toSend_msgOf hsend] at hsent
      have hnext := h.sending { net.links node peer with peerRx := rest } rfl rfl hsent
        fun _ hmem => hmem
      rw [setUnderway_same] at hnext
      exact .inr ⟨bytes, rfl, hnext⟩
  | none =>
      rw [hitem] at hsend
      have hmarked := marked_of_withheld hsend
      rw [h.connections] at hmarked
      have hnext := h.queueing { net.links node peer with peerRx := rest, receiving := true }
        rfl rfl hwithheld fun other hmem => by
          rw [hunderway]
          exact ((List.Sublist.refl before).append (List.sublist_cons_self payload after)).mem hmem
      exact .inl ⟨_, _, .withheld node peer before after payload hunderway hmarked, hnext,
        fun _ => rfl⟩

theorem outbound_empty {net : Network ι} {mesh : Mesh ι} (h : Represents D net mesh)
    {node peer : ι} (hready : ¬(net.links node peer).receiving)
    (hpeerRx : (net.links node peer).peerRx = []) :
    net.step D linked (.outbound node peer) =
        (net.setLink node peer { net.links node peer with peerRx := [], receiving := true }, []) ∧
      Represents D (net.step D linked (.outbound node peer)).1 mesh := by
  simp only [Network.step]
  have hpipe := h.pipes node peer
  rw [hpeerRx] at hpipe
  have hnext := h.queueing { net.links node peer with peerRx := [], receiving := true } rfl rfl
    hpipe fun _ hmem => hmem
  rw [setUnderway_same] at hnext
  rw [if_neg hready, hpeerRx]
  exact ⟨rfl, hnext⟩

theorem deliver_first {net : Network ι} {mesh : Mesh ι} (h : Represents D net mesh)
    {sender receiver : ι} {bytes : Bytes} {wire : List Bytes}
    (hwire : net.wires sender receiver = bytes :: wire) :
    net.step D linked (.deliver sender receiver) =
        ((net.setLink receiver sender
          { net.links receiver sender with
            inbound := (net.links receiver sender).inbound ++ [bytes] }).setWire
              sender receiver wire, []) ∧
      Represents D (net.step D linked (.deliver sender receiver)).1 mesh := by
  simp only [Network.step]
  have hpipe := h.pipes sender receiver
  rw [hwire] at hpipe
  have hnext := h.receiving
    { net.links receiver sender with
      inbound := (net.links receiver sender).inbound ++ [bytes] } rfl hpipe.deliver
    fun _ hmem => hmem
  rw [setUnderway_same, h.connections, setConnection_same] at hnext
  rw [hwire]
  exact ⟨rfl, hnext⟩

theorem setState_same (net : Network ι) (node : ι) :
    (net.setState node (net.states node)).broadcast linked node [] = net := by
  have hstates : (net.setState node (net.states node)).states = net.states := by
    funext n
    rw [setState_states]
    split
    · rename_i hn
      rw [hn]
    · rfl
  have hlinks : (net.broadcast linked node []).links = net.links := by
    funext n m
    simp only [Network.broadcast, peerTx_nil, List.map_nil, List.append_nil]
    split <;> rfl
  exact congrArg₂ (fun states links => { net with states := states, links := links }) hstates hlinks

theorem marked_of_stopped {self : FlashblocksConnection} {payload : FlashblocksPayload}
    (hstops : ¬self.forwards payload) {key : PayloadId × Nat}
    (h : (key = payloadKey payload ∧ payload.index.toNat ≤ maxFlashblockIndex) ∨
      payload.payloadId = key.1 ∧ self.Marked key) : self.Marked key := by
  rw [forwards_iff, not_and, not_not] at hstops
  rcases h with ⟨rfl, hindex⟩ | ⟨_, hmarked⟩
  · exact hstops hindex
  · exact hmarked

theorem inbound_empty {net : Network ι} {mesh : Mesh ι} (h : Represents D net mesh)
    {node peer : ι} (hreceiving : (net.links node peer).receiving)
    (hempty : (net.links node peer).inbound = []) (now : Int) :
    net.step D linked (.inbound node peer now) =
        (net.setLink node peer { net.links node peer with inbound := [], receiving := false }, []) ∧
      Represents D (net.step D linked (.inbound node peer now)).1 mesh := by
  have hpipe := h.pipes peer node
  rw [hempty] at hpipe
  have hnext := h.handling
    { net.links node peer with inbound := [], receiving := false } rfl hpipe fun _ hmem => hmem
  rw [setUnderway_same, h.connections, setConnection_same] at hnext
  have hstep : net.step D linked (.inbound node peer now) =
      (net.setLink node peer { net.links node peer with inbound := [], receiving := false }, []) := by
    simp only [Network.step]
    rw [if_pos hreceiving]
    have hreceived := received D (net.links node peer) now (net.states node)
    generalize receive D (net.links node peer) now (net.states node) = polled at hreceived ⊢
    cases hreceived with
    | idle hinbound hconnection hstate hsent hchanges =>
        rw [hconnection, hstate, hsent, hempty, hchanges]
        exact congrArg (·, []) (@setState_same _ _ linked _ node)
    | garbled buf rest e hinbound => simp [hempty] at hinbound
    | handled buf rest payload suffix hinbound => simp [hempty] at hinbound
  rw [hstep]
  exact ⟨rfl, hnext⟩

theorem inbound_first (hD : D.Lawful) {net : Network ι} {mesh : Mesh ι}
    (h : Represents D net mesh) {node peer : ι} (hreceiving : (net.links node peer).receiving)
    (harrived : (net.links node peer).inbound ≠ []) (now : Int) :
    Moves D linked mesh (net.step D linked (.inbound node peer now)) := by
  simp only [Network.step]
  rw [if_pos hreceiving]
  have hreceived := received D (net.links node peer) now (net.states node)
  generalize receive D (net.links node peer) now (net.states node) = polled at hreceived ⊢
  have hpipe := h.pipes peer node
  cases hreceived with
  | idle hinbound => exact absurd hinbound harrived
  | garbled buf rest e hinbound hdecode hstate hsent =>
      rw [hinbound] at hpipe
      obtain ⟨payload, others, hunderway, rfl, _⟩ := hpipe.take
      have hfits := h.fits peer node payload (by simp [hunderway])
      rw [decodeMsg_encode hD hfits] at hdecode
      cases hdecode
  | handled buf rest payload suffix hinbound hdecode result hhandled hconnection hstate hsent
      hchanges =>
      rw [hinbound] at hpipe
      obtain ⟨first, others, hunderway, rfl, hrest⟩ := hpipe.take
      have hfits := h.fits peer node first (by simp [hunderway])
      rw [decodeMsg_encode hD hfits] at hdecode
      cases hdecode
      have hnext := h.handling
        { net.links node peer with
          connection := result.1
          inbound := rest
          receiving := false } rfl hrest fun other hmem => by
          rw [hunderway]
          exact List.mem_cons_of_mem _ hmem
      have heffect := handle_state (encode D) now (net.links node peer).connection
        (net.states node) payload
      have hmarks := handle_marks (encode D) now (net.links node peer).connection
        (net.states node) payload
      have hmarked := fun key => (handle_marked (encode D) now (net.links node peer).connection
        (net.states node) payload key).mp
      rw [hhandled, h.connections] at heffect hmarks hmarked
      by_cases hpasses : (mesh.connections node peer).forwards payload
      · rw [if_pos hpasses, if_pos hpasses] at heffect
        refine ⟨_, _, .handled peer node now payload others result.1 hunderway hpasses hmarks.2,
          ?_, ?_⟩
        · rw [hconnection, hstate, hsent, hinbound, heffect.1, heffect.2]
          exact hnext.publish node now payload
        · intro n
          rw [hsent, heffect.2, ← h.states]
          simp
      · rw [if_neg hpasses, if_neg hpasses] at heffect
        refine ⟨_, _, .repeated peer node payload others result.1 hunderway hpasses ?_, ?_, ?_⟩
        · exact fun key hkey => marked_of_stopped hpasses (hmarked key hkey)
        · have hquiet := @setState_same _ _ linked
          rw [hconnection, hstate, hsent, hinbound, heffect.1, heffect.2]
          exact (hquiet _ node).symm ▸ hnext
        · intro n
          simp [hsent, heffect.2, sentBy]

def Simulated (D : Codecs FlashblockMetadata) (linked : ι → ι → Bool) (mesh : Mesh ι)
    (event : Event ι) (after : Network ι × List (Output ι)) : Prop :=
  ∃ sent mesh', Turn D linked mesh (publishedNew [event]) sent mesh' ∧
    Represents D after.1 mesh' ∧ ∀ n, sentBy n after.2 = sent n

theorem Moves.simulated {mesh : Mesh ι} {after : Network ι × List (Output ι)} {event : Event ι}
    (h : Moves D linked mesh after) (hevent : publishedNew [event] = []) :
    Simulated D linked mesh event after := by
  obtain ⟨sent, mesh', hmove, hafter, hsent⟩ := h
  exact ⟨sent, mesh', hevent ▸ .moved sent mesh' hmove, hafter, hsent⟩

theorem simulated_idle {net : Network ι} {mesh : Mesh ι} (h : Represents D net mesh)
    {event : Event ι} (hevent : publishedNew [event] = []) :
    Simulated D linked mesh event (net, []) :=
  ⟨_, mesh, hevent ▸ .idle, h, fun _ => rfl⟩

theorem simulated_outbound {net : Network ι} {mesh : Mesh ι} (h : Represents D net mesh)
    (node peer : ι) :
    Simulated D linked mesh (.outbound node peer) (net.step D linked (.outbound node peer)) := by
  by_cases hreceiving : (net.links node peer).receiving
  · simp only [Network.step]
    rw [if_pos hreceiving]
    exact simulated_idle h rfl
  cases hpeerRx : (net.links node peer).peerRx with
  | nil =>
      obtain ⟨hstep, hnext⟩ := @outbound_empty _ _ D linked _ _ h _ _ hreceiving hpeerRx
      rw [hstep] at hnext ⊢
      exact simulated_idle hnext rfl
  | cons item rest =>
      rcases @outbound_first _ _ D linked _ _ h _ _ hreceiving _ _ hpeerRx with
        hmoves | ⟨bytes, hstep, hnext⟩
      · exact hmoves.simulated rfl
      · rw [hstep] at hnext ⊢
        exact simulated_idle hnext rfl

theorem simulated_deliver {net : Network ι} {mesh : Mesh ι} (h : Represents D net mesh)
    (sender receiver : ι) :
    Simulated D linked mesh (.deliver sender receiver)
      (net.step D linked (.deliver sender receiver)) := by
  cases hwire : net.wires sender receiver with
  | nil =>
      simp only [Network.step, hwire]
      exact simulated_idle h rfl
  | cons bytes wire =>
      obtain ⟨hstep, hnext⟩ := @deliver_first _ _ D linked _ _ h _ _ _ _ hwire
      rw [hstep] at hnext ⊢
      exact simulated_idle hnext rfl

theorem simulated_inbound (hD : D.Lawful) {net : Network ι} {mesh : Mesh ι}
    (h : Represents D net mesh) (node peer : ι) (now : Int) :
    Simulated D linked mesh (.inbound node peer now)
      (net.step D linked (.inbound node peer now)) := by
  by_cases hreceiving : (net.links node peer).receiving
  · by_cases hempty : (net.links node peer).inbound = []
    · obtain ⟨hstep, hnext⟩ := @inbound_empty _ _ D linked _ _ h _ _ hreceiving hempty now
      rw [hstep] at hnext ⊢
      exact simulated_idle hnext rfl
    · exact (inbound_first hD h hreceiving hempty now).simulated rfl
  · simp only [Network.step]
    rw [if_neg hreceiving]
    exact simulated_idle h rfl

/-- Every event of the network is a turn of its channels. -/
theorem simulated (hD : D.Lawful) {net : Network ι} {mesh : Mesh ι} (h : Represents D net mesh)
    (event : Event ι) : Simulated D linked mesh event (net.step D linked event) := by
  cases event with
  | publishNew node now payload =>
      refine ⟨_, _, .published node now payload, h.publish node now payload, ?_⟩
      intro n
      rw [← h.states]
      exact sentBy_sent node n _
  | outbound node peer => exact simulated_outbound h node peer
  | inbound node peer now => exact simulated_inbound hD h node peer now
  | deliver sender receiver => exact simulated_deliver h sender receiver

/-- What every turn keeps holds at the end of every run of the network. -/
theorem exec_channels (hD : D.Lawful) {start : Network ι} {mesh : Mesh ι}
    (hstart : Represents D start mesh)
    (inv : List (ι × FlashblocksPayload) → (ι → List Sent) → Mesh ι → Prop)
    (hfirst : inv [] (fun _ => []) mesh)
    (hturn : ∀ calls sent mesh, inv calls sent mesh → ∀ more sent' mesh',
      Turn D linked mesh more sent' mesh' → inv (calls ++ more) (fun n => sent n ++ sent' n) mesh')
    (events : List (Event ι)) :
    ∃ reached, Represents D (exec (Network.step D linked) start events).1 reached ∧
      inv (publishedNew events)
        (fun n => sentBy n (exec (Network.step D linked) start events).2) reached := by
  induction events using List.reverseRecOn with
  | nil => exact ⟨mesh, hstart, hfirst⟩
  | append_singleton events event ih =>
      obtain ⟨before, hbefore, hinv⟩ := ih
      obtain ⟨sent, after, hstep, hafter, hsent⟩ := @simulated _ _ D linked hD _ _ hbefore event
      rw [exec_concat]
      refine ⟨after, hafter, ?_⟩
      have hnext := hturn _ _ _ hinv _ _ _ hstep
      have hcalls : publishedNew (events ++ [event]) = publishedNew events ++ publishedNew [event] :=
        List.filterMap_append
      rw [hcalls]
      convert hnext using 2 with n
      rw [sentBy_append, hsent]

end WorldChain.P2p.Channels
