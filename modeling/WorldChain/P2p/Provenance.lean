import WorldChain.P2p.Channels

/-! Where the flashblocks come from that a node of the network holds and sends. -/
namespace WorldChain.P2p.Provenance
open Relation Library.Runs Wire.Primitives Wire.Message Wire.Alloy
open Publish OrderedState Connection Poll Peers AcrossPayloads Honest Channels

variable {ι : Type}

/-- A publisher handed it to `publish_new`, and there are links from there on. -/
def Sourced (linked : ι → ι → Bool) (calls : List (ι × FlashblocksPayload)) (node : ι)
    (payload : FlashblocksPayload) : Prop :=
  ∃ call ∈ calls, call.2 = payload ∧ ReflTransGen (fun n m => linked n m) call.1 node

variable {linked : ι → ι → Bool} {calls : List (ι × FlashblocksPayload)}

theorem Sourced.mono {node : ι} {payload : FlashblocksPayload}
    (h : Sourced linked calls node payload) (more : List (ι × FlashblocksPayload)) :
    Sourced linked (calls ++ more) node payload := by
  obtain ⟨call, hmem, heq, hpath⟩ := h
  exact ⟨call, List.mem_append_left _ hmem, heq, hpath⟩

theorem Sourced.pass {node peer : ι} {payload : FlashblocksPayload}
    (h : Sourced linked calls node payload) (hlinked : linked node peer) :
    Sourced linked calls peer payload := by
  obtain ⟨call, hmem, heq, hpath⟩ := h
  exact ⟨call, hmem, heq, hpath.tail hlinked⟩

structure Traced (D : Codecs FlashblockMetadata) (linked : ι → ι → Bool)
    (calls : List (ι × FlashblocksPayload)) (sent : ι → List Sent) (mesh : Mesh ι) : Prop where
  held : ∀ n payload, Holds (mesh.states n) payload → Sourced linked calls n payload
  underway : ∀ n m, ∀ payload ∈ mesh.underway n m, linked n m ∧ Sourced linked calls n payload
  emitted : ∀ n, ∀ payload ∈ flashblockTx (sent n), Sourced linked calls n payload
  gossiped : ∀ n, ∀ msg ∈ peerTx (sent n),
    ∃ payload, Sourced linked calls n payload ∧ msg = msgOf D payload

variable {D : Codecs FlashblockMetadata} {sent : ι → List Sent} {mesh : Mesh ι}

theorem traced_start : Traced D linked [] (fun _ => []) ({} : Mesh ι) where
  held n payload h := by
    obtain ⟨i, hslot⟩ := h
    cases hslot
  underway n m payload hmem := by cases hmem
  emitted n payload hmem := by cases hmem
  gossiped n msg hmem := by cases hmem

theorem Traced.mono (h : Traced D linked calls sent mesh)
    (more : List (ι × FlashblocksPayload)) : Traced D linked (calls ++ more) sent mesh where
  held n payload hheld := (h.held n payload hheld).mono more
  underway n m payload hmem := (h.underway n m payload hmem).imp_right (·.mono more)
  emitted n payload hmem := (h.emitted n payload hmem).mono more
  gossiped n msg hmem := by
    obtain ⟨payload, hsourced, hmsg⟩ := h.gossiped n msg hmem
    exact ⟨payload, hsourced.mono more, hmsg⟩

variable [DecidableEq ι]

theorem Traced.setUnderway (h : Traced D linked calls sent mesh) {sender receiver : ι}
    {payloads : List FlashblocksPayload}
    (hsub : List.Sublist payloads (mesh.underway sender receiver)) :
    Traced D linked calls sent (mesh.setUnderway sender receiver payloads) where
  held := h.held
  emitted := h.emitted
  gossiped := h.gossiped
  underway n m payload hmem := by
    rw [setUnderway_underway] at hmem
    split at hmem
    · rename_i hpair
      rw [hpair.1, hpair.2]
      exact h.underway _ _ payload (hsub.mem hmem)
    · exact h.underway n m payload hmem

theorem Traced.setConnection (h : Traced D linked calls sent mesh) (node peer : ι)
    (connection : FlashblocksConnection) :
    Traced D linked calls sent (mesh.setConnection node peer connection) :=
  ⟨h.held, h.underway, h.emitted, h.gossiped⟩

/-- What a call of `publish` caches, emits and gossips has been sourced before. -/
theorem Traced.publish (h : Traced D linked calls sent mesh) {node : ι}
    {payload : FlashblocksPayload} (hsourced : Sourced linked calls node payload) (now : Int) :
    Traced D linked calls
      (fun n => sent n ++
        if n = node then (Publish.publish (encode D) now (mesh.states node) payload).2 else [])
      (mesh.publish D linked node now payload) := by
  have hfrom : ∀ other, Holds (Publish.publish (encode D) now (mesh.states node) payload).1 other ∨
      other ∈ flashblockTx (Publish.publish (encode D) now (mesh.states node) payload).2 →
        Sourced linked calls node other := by
    intro other hother
    rcases publish_from now (mesh.states node) payload other hother with rfl | hheld
    · exact hsourced
    · exact h.held node other hheld
  obtain ⟨hsent, hpassed⟩ := peerTx_passedOn D now (mesh.states node) payload
  refine ⟨?_, ?_, ?_, ?_⟩
  · intro n other hheld
    simp only [Mesh.publish] at hheld
    split at hheld
    · rename_i hn
      rw [hn]
      exact hfrom other (.inl hheld)
    · exact h.held n other hheld
  · intro n m other hmem
    simp only [Mesh.publish] at hmem
    split at hmem
    · rename_i hlinked
      cases List.mem_append.mp hmem with
      | inl hold => exact h.underway n m other hold
      | inr hnew =>
          rw [hlinked.1, (hpassed other hnew).1]
          exact ⟨hlinked.1 ▸ hlinked.2, hsourced⟩
    · exact h.underway n m other hmem
  · intro n other hmem
    rw [flashblockTx_append, List.mem_append] at hmem
    cases hmem with
    | inl hold => exact h.emitted n other hold
    | inr hnew =>
        split at hnew
        · rename_i hn
          rw [hn]
          exact hfrom other (.inr hnew)
        · cases hnew
  · intro n msg hmem
    rw [peerTx_append, List.mem_append] at hmem
    cases hmem with
    | inl hold => exact h.gossiped n msg hold
    | inr hnew =>
        split at hnew
        · rename_i hn
          rw [hsent] at hnew
          obtain ⟨other, hother, rfl⟩ := List.mem_map.mp hnew
          rw [hn, (hpassed other hother).1]
          exact ⟨payload, hsourced, rfl⟩
        · cases hnew

theorem Traced.move (h : Traced D linked calls sent mesh) {sent' : ι → List Sent}
    {mesh' : Mesh ι} (hmove : Move D linked mesh sent' mesh') :
    Traced D linked calls (fun n => sent n ++ sent' n) mesh' := by
  cases hmove with
  | withheld sender receiver before after payload hunderway =>
      have hsub : List.Sublist (before ++ after) (mesh.underway sender receiver) := by
        rw [hunderway]
        exact (List.Sublist.refl before).append (List.sublist_cons_self payload after)
      simpa using h.setUnderway hsub
  | repeated sender receiver payload rest connection hunderway =>
      have hsub : List.Sublist rest (mesh.underway sender receiver) := by
        rw [hunderway]
        exact List.sublist_cons_self payload rest
      simpa using (h.setUnderway hsub).setConnection receiver sender connection
  | handled sender receiver now payload rest connection hunderway =>
      have hsub : List.Sublist rest (mesh.underway sender receiver) := by
        rw [hunderway]
        exact List.sublist_cons_self payload rest
      obtain ⟨hlinked, hsourced⟩ := h.underway sender receiver payload (by simp [hunderway])
      exact ((h.setUnderway hsub).setConnection receiver sender connection).publish
        (hsourced.pass hlinked) now

theorem Traced.turn (h : Traced D linked calls sent mesh)
    {more : List (ι × FlashblocksPayload)} {sent' : ι → List Sent} {mesh' : Mesh ι}
    (hturn : Turn D linked mesh more sent' mesh') :
    Traced D linked (calls ++ more) (fun n => sent n ++ sent' n) mesh' := by
  cases hturn with
  | idle => simpa using h
  | published node now payload =>
      refine (h.mono _).publish ⟨(node, payload), ?_, rfl, .refl⟩ now
      exact List.mem_append_right _ List.mem_cons_self
  | moved sent' mesh' hmove =>
      rw [List.append_nil]
      exact h.move hmove

theorem traced_run (hD : D.Lawful) (linked : ι → ι → Bool) (events : List (Event ι)) :
    ∃ mesh, Traced D linked (publishedNew events)
      (fun n => sentBy n (exec (Network.step D linked) {} events).2) mesh := by
  obtain ⟨mesh, _, htraced⟩ := exec_channels hD represents_start
    (fun calls sent mesh => Traced D linked calls sent mesh) traced_start
    (fun _ _ _ h _ _ _ hturn => h.turn hturn) events
  exact ⟨mesh, htraced⟩

/-- Nothing is made up: in every run of every network, whatever a node emits or
gossips is, byte for byte, a flashblock that was handed to `publish_new` at a node from
which links lead to it. -/
theorem nothing_made_up (hD : D.Lawful) (linked : ι → ι → Bool) (events : List (Event ι))
    (node : ι) :
    (∀ payload ∈ flashblockTx (sentBy node (exec (Network.step D linked) {} events).2),
      Sourced linked (publishedNew events) node payload) ∧
    ∀ msg ∈ peerTx (sentBy node (exec (Network.step D linked) {} events).2),
      ∃ payload, Sourced linked (publishedNew events) node payload ∧ msg = msgOf D payload := by
  obtain ⟨_, htraced⟩ := traced_run hD linked events
  exact ⟨htraced.emitted node, htraced.gossiped node⟩

theorem nothing_made_up_relayed :
    Sourced (fun n m : Fin 2 => n ≠ m) [(0, timed 1 0 1)] 1 (timed 1 0 1) := by
  have h := nothing_made_up sample_lawful (fun n m : Fin 2 => n ≠ m)
    [.publishNew 0 20 (timed 1 0 1), .outbound 0 1, .deliver 0 1, .outbound 1 0, .inbound 1 0 21] 1
  exact h.1 _ (by decide +kernel)

end WorldChain.P2p.Provenance
