import WorldChain.P2p.Delivery

/-! A node whose connections come up in the middle of a payload: its peers do not send again
what they have gossiped before. -/
namespace WorldChain.P2p.Latecomer
open Library Library.ReorderBuffer Library.Runs Wire.Primitives Wire.Message Wire.Alloy
open Publish OrderedState Poll Peers AcrossPayloads Honest WithinPayload Channels Spreading Delivery

variable {ι : Type} {D : Codecs FlashblockMetadata} {linked : ι → ι → Bool} {id : PayloadId}
variable {k : Nat} {node : ι} {start mesh : Mesh ι} {sent : ι → List Sent}
variable {histories : ι → List (Int × FlashblocksPayload)}

/-- The node has not been handed index `k` of the payload and is not going to be: it is not on
its way, and the peers that send to the node have it already. -/
structure Missed (D : Codecs FlashblockMetadata) (linked : ι → ι → Bool) (id : PayloadId)
    (k : Nat) (node : ι) (start : Mesh ι) (sent : ι → List Sent) (mesh : Mesh ι)
    (histories : ι → List (Int × FlashblocksPayload)) : Prop where
  history : ∀ n, run (encode D) (start.states n) (histories n) = (mesh.states n, sent n)
  payloads : ∀ n, OfPayload D id ((histories n).map Prod.snd)
  underway : ∀ n m, OfPayload D id (mesh.underway n m)
  peers : ∀ n, linked n node → ∃ payload ∈ (histories n).map Prod.snd, payload.index.toNat = k
  toward : ∀ n, ∀ payload ∈ mesh.underway n node, payload.index.toNat ≠ k
  lacks : ∀ payload ∈ (histories node).map Prod.snd, payload.index.toNat ≠ k

/-! What is emitted and gossiped of a history. -/

theorem index_of_contiguous {payloads : List FlashblocksPayload} {payload : FlashblocksPayload}
    (hmem : payload ∈ contiguous payloads)
    (hnone : ∀ other ∈ payloads, other.index.toNat ≠ k) : payload.index.toNat < k := by
  have hslot (i : Nat) (other : FlashblocksPayload)
      (h : slot ((List.range (maxFlashblockIndex + 1)).map (firstDelivered payloads)) i =
        some other) : other ∈ payloads ∧ other.index.toNat = i := by
    unfold slot at h
    rw [List.getElem?_map] at h
    by_cases hi : i < maxFlashblockIndex + 1
    · rw [List.getElem?_range hi] at h
      exact firstDelivered_index h
    · rw [List.getElem?_eq_none (by simpa using hi)] at h
      cases h
  have hfilled (i : Nat) (hi : i < (contiguous payloads).length) :
      (contiguous payloads)[i] ∈ payloads ∧ (contiguous payloads)[i].index.toNat = i :=
    hslot i _ ((slot_of_lt_filledPrefix hi).trans (List.getElem?_eq_getElem hi))
  obtain ⟨i, hi, rfl⟩ := List.getElem_of_mem hmem
  rw [(hfilled i hi).2]
  by_contra hle
  obtain ⟨hother, hindex⟩ := hfilled k (lt_of_le_of_lt (Nat.le_of_not_lt hle) hi)
  exact hnone _ hother hindex

theorem peerTx_run (state : FlashblocksP2PState) (history : List (Int × FlashblocksPayload)) :
    ∀ msg ∈ peerTx (run (encode D) state history).2,
      ∃ payload ∈ history.map Prod.snd, msg = msgOf D payload := by
  induction history using List.reverseRecOn with
  | nil =>
      intro msg hmsg
      cases hmsg
  | append_singleton history call ih =>
      intro msg hmsg
      unfold run at hmsg ih
      rw [exec_concat, peerTx_append, List.mem_append] at hmsg
      rw [List.map_append]
      rcases hmsg with hold | hnew
      · obtain ⟨payload, hpayload, heq⟩ := ih msg hold
        exact ⟨payload, List.mem_append_left _ hpayload, heq⟩
      · obtain ⟨hsent, hpassed⟩ := peerTx_passedOn D call.1
          (run (encode D) state history).1 call.2
        change msg ∈ peerTx (publish (encode D) call.1 (run (encode D) state history).1 call.2).2
          at hnew
        rw [hsent] at hnew
        obtain ⟨payload, hpayload, rfl⟩ := List.mem_map.mp hnew
        rw [(hpassed payload hpayload).1]
        exact ⟨call.2, List.mem_append_right _ List.mem_cons_self, rfl⟩

variable [DecidableEq ι]

/-! One turn. -/

theorem Missed.setUnderway (h : Missed D linked id k node start sent mesh histories)
    {sender receiver : ι} {payloads : List FlashblocksPayload}
    (hsub : ∀ payload ∈ payloads, payload ∈ mesh.underway sender receiver) :
    Missed D linked id k node start sent (mesh.setUnderway sender receiver payloads)
      histories where
  history := h.history
  payloads := h.payloads
  peers := h.peers
  lacks := h.lacks
  underway n m payload hmem := by
    rw [setUnderway_underway] at hmem
    split at hmem
    · exact h.underway sender receiver payload (hsub payload hmem)
    · exact h.underway n m payload hmem
  toward n payload hmem := by
    rw [setUnderway_underway] at hmem
    split at hmem
    · rename_i hpair
      have hold := hsub payload hmem
      rw [← hpair.2] at hold
      exact h.toward sender payload hold
    · exact h.toward n payload hmem

theorem Missed.setConnection (h : Missed D linked id k node start sent mesh histories)
    (n peer : ι) (connection : P2p.Connection.FlashblocksConnection) :
    Missed D linked id k node start sent (mesh.setConnection n peer connection) histories :=
  ⟨h.history, h.payloads, h.underway, h.peers, h.toward, h.lacks⟩

theorem Missed.publish (h : Missed D linked id k node start sent mesh histories)
    (hblank : ∀ n, Blank id (start.states n)) {n : ι} {payload : FlashblocksPayload}
    (hpayload : payload.payloadId = id ∧ WithinLimits (encode D) payload)
    (hindex : n = node → payload.index.toNat ≠ k) (now : Int) :
    Missed D linked id k node start
      (fun m => sent m ++
        if m = n then (Publish.publish (encode D) now (mesh.states n) payload).2 else [])
      (mesh.publish D linked n now payload) (hand histories n now payload) where
  history := history_publish h.history n now payload
  payloads m other hother := by
    rcases (mem_hand ..).mp hother with ⟨_, rfl⟩ | hold
    · exact hpayload
    · exact h.payloads m other hold
  underway m peer other hother := by
    rcases (mem_underway_publish ..).mp hother with hold | ⟨_, hnew⟩
    · exact h.underway m peer other hold
    · rw [((peerTx_passedOn D now (mesh.states n) payload).2 other hnew).1]
      exact hpayload
  peers m hlinked := by
    obtain ⟨other, hother, hk⟩ := h.peers m hlinked
    exact ⟨other, (mem_hand ..).mpr (.inr hother), hk⟩
  toward m other hother := by
    rcases (mem_underway_publish ..).mp hother with hold | ⟨⟨rfl, hlinked⟩, hnew⟩
    · exact h.toward m other hold
    · intro hk
      have hsame := ((peerTx_passedOn D now (mesh.states m) payload).2 other hnew).1
      subst hsame
      -- the peer has index `k` already, so it does not gossip it again
      obtain ⟨taken, htaken, htakenIndex⟩ := h.peers m hlinked
      have hnone := passedOn_taken (hblank m) (h.payloads m) hpayload.1 htaken
        (htakenIndex.trans hk.symm) now
      rw [h.history] at hnone
      rw [hnone] at hnew
      cases hnew
  lacks other hother := by
    rcases (mem_hand ..).mp hother with ⟨heq, rfl⟩ | hold
    · exact hindex heq.symm
    · exact h.lacks other hold

/-- The step lemma: the node goes on missing what its peers have gossiped. -/
theorem Missed.turn (h : Missed D linked id k node start sent mesh histories)
    (hblank : ∀ n, Blank id (start.states n)) {more : List (ι × FlashblocksPayload)}
    {sent' : ι → List Sent} {mesh' : Mesh ι} (hturn : Turn D linked mesh more sent' mesh')
    (hmore : OfPayload D id (more.map Prod.snd)) (hown : ∀ call ∈ more, call.1 ≠ node) :
    ∃ histories', Missed D linked id k node start (fun n => sent n ++ sent' n) mesh'
      histories' := by
  cases hturn with
  | idle => exact ⟨histories, by simpa using h⟩
  | published n now payload =>
      exact ⟨_, h.publish hblank (hmore payload List.mem_cons_self)
        (fun heq => (hown _ List.mem_cons_self heq).elim) now⟩
  | moved sent' mesh' hmove =>
      cases hmove with
      | withheld sender receiver before after payload hunderway =>
          refine ⟨histories, ?_⟩
          simp only [List.append_nil]
          apply h.setUnderway
          intro other hmem
          rw [hunderway]
          exact ((List.Sublist.refl before).append (List.sublist_cons_self payload after)).mem hmem
      | repeated sender receiver payload rest connection hunderway =>
          refine ⟨histories, ?_⟩
          simp only [List.append_nil]
          refine (h.setUnderway fun other hmem => ?_).setConnection receiver sender connection
          rw [hunderway]
          exact List.mem_cons_of_mem payload hmem
      | handled sender receiver now payload rest connection hunderway =>
          have hmem : payload ∈ mesh.underway sender receiver := by simp [hunderway]
          have hrest := (h.setUnderway fun other hother =>
            hunderway ▸ List.mem_cons_of_mem payload hother).setConnection receiver sender connection
          refine ⟨_, hrest.publish hblank (h.underway sender receiver payload hmem) ?_ now⟩
          rintro rfl
          exact h.toward sender payload hmem

/-! Runs. -/

omit [DecidableEq ι] in
theorem missed_start (hrest : ∀ n m, mesh.underway n m = []) (halone : ∀ n, linked n node = false) :
    Missed D linked id k node mesh (fun _ => []) mesh (fun _ => []) where
  history _ := rfl
  payloads _ _ hmem := by cases hmem
  underway n m payload hmem := by
    rw [hrest] at hmem
    cases hmem
  peers n hlinked := by
    rw [halone] at hlinked
    cases hlinked
  toward n payload hmem := by
    rw [hrest] at hmem
    cases hmem
  lacks _ hmem := by cases hmem

theorem missed_run (hD : D.Lawful) {net : Network ι} (hnet : Represents D net mesh)
    (h : Missed D linked id k node start sent mesh histories)
    (hblank : ∀ n, Blank id (start.states n)) {events : List (Event ι)}
    (hpayload : OfPayload D id ((publishedNew events).map Prod.snd))
    (hown : ∀ call ∈ publishedNew events, call.1 ≠ node) :
    ∃ mesh' histories', Represents D (exec (Network.step D linked) net events).1 mesh' ∧
      Missed D linked id k node start
        (fun n => sent n ++ sentBy n (exec (Network.step D linked) net events).2) mesh'
        histories' := by
  obtain ⟨mesh', hmesh, hmissed⟩ := exec_channels hD hnet
    (fun calls sent' mesh' => OfPayload D id (calls.map Prod.snd) → (∀ call ∈ calls, call.1 ≠ node) →
      ∃ histories', Missed D linked id k node start (fun n => sent n ++ sent' n) mesh' histories')
    (fun _ _ => ⟨histories, by simpa using h⟩)
    (fun calls sent' mesh' hinv more sent'' mesh'' hturn hcalls howns => by
      rw [List.map_append] at hcalls
      obtain ⟨histories', hold⟩ := hinv hcalls.of_append
        fun call hcall => howns call (List.mem_append_left _ hcall)
      have hnext := hold.turn hblank hturn
        (fun payload hmem => hcalls payload (List.mem_append_right _ hmem))
        fun call hcall => howns call (List.mem_append_right _ hcall)
      simpa only [List.append_assoc] using hnext) events
  obtain ⟨histories', hlast⟩ := hmissed hpayload hown
  exact ⟨mesh', histories', hmesh, hlast⟩

/-- A node that joins in the middle of a payload never catches up: if its connections come up
when all of its peers have gossiped index `k` already, then whatever happens from then on it
emits no flashblock of the payload from index `k` on, and nothing at all if `k` is zero. -/
theorem no_catch_up (hD : D.Lawful) (linked linked' : ι → ι → Bool)
    (earlier events later : List (Event ι)) (id : PayloadId) (k : Nat) (node : ι)
    (hrest : AtRest (exec (Network.step D linked) {} earlier).1)
    (hearlier : ∀ call ∈ publishedNew earlier, call.2.payloadId ≠ id)
    (hpayload : OfPayload D id ((publishedNew (events ++ later)).map Prod.snd))
    (hown : ∀ call ∈ publishedNew (events ++ later), call.1 ≠ node)
    (halone : ∀ n, linked n node = false) :
    let before := exec (Network.step D linked) (exec (Network.step D linked) {} earlier).1 events
    let after := exec (Network.step D linked') before.1 later
    (∀ n, linked' n node → ∃ msg ∈ peerTx (sentBy n before.2), msg.key = (id, k)) →
      ∀ payload ∈ flashblockTx (sentBy node (before.2 ++ after.2)), payload.index.toNat < k := by
  intro before after hgone
  obtain ⟨start, hstart, huntouched⟩ := untouched_run hD linked hearlier
  have hblank := huntouched.blank
  have hboth : publishedNew (events ++ later) = publishedNew events ++ publishedNew later :=
    List.filterMap_append
  rw [hboth] at hpayload hown
  rw [List.map_append] at hpayload
  have hfirst : Missed D linked id k node start (fun _ => []) start (fun _ => []) :=
    missed_start (underway_at_rest hstart hrest) halone
  obtain ⟨middle, histories, hmiddle, hmissed⟩ := missed_run hD hstart hfirst hblank
    hpayload.of_append fun call hcall => hown call (List.mem_append_left _ hcall)
  have hjoined : Missed D linked' id k node start (fun n => sentBy n before.2) middle histories := by
    refine ⟨hmissed.history, hmissed.payloads, hmissed.underway, ?_, hmissed.toward,
      hmissed.lacks⟩
    intro n hlinked
    obtain ⟨msg, hmsg, hkey⟩ := hgone n hlinked
    have hrun := @peerTx_run D (start.states n) (histories n)
    rw [hmissed.history] at hrun
    obtain ⟨payload, hmem, rfl⟩ := hrun msg hmsg
    exact ⟨payload, hmem, congrArg Prod.snd hkey⟩
  obtain ⟨_, histories', _, hlast⟩ := missed_run hD hmiddle hjoined hblank
    (fun payload hmem => hpayload payload (List.mem_append_right _ hmem))
    fun call hcall => hown call (List.mem_append_right _ hcall)
  have hemitted := emitted_history (hblank node) (hlast.payloads node)
  rw [hlast.history] at hemitted
  intro payload hmem
  rw [sentBy_append] at hmem
  change payload ∈ flashblockTx (sentBy node before.2 ++ sentBy node after.2) at hmem
  change flashblockTx (sentBy node before.2 ++ sentBy node after.2) = _ at hemitted
  rw [hemitted] at hmem
  exact index_of_contiguous hmem hlast.lacks

def joinedLate (publisher node : ι) : List (Event ι) :=
  [.publishNew publisher 21 (timed 1 1 1), .outbound publisher node, .deliver publisher node,
    .outbound node publisher, .inbound node publisher 22]

theorem no_catch_up_joined_late :
    flashblockTx (sentBy 1 (exec (Network.step sampleCodecs fun n m : Fin 2 => n ≠ m)
      (exec (Network.step sampleCodecs fun _ _ : Fin 2 => false) {}
        [.publishNew 0 20 (timed 1 0 1)]).1 (joinedLate 0 1)).2) = [] := by
  have h := no_catch_up sample_lawful (fun _ _ : Fin 2 => false) (fun n m => n ≠ m) []
    [.publishNew 0 20 (timed 1 0 1)] (joinedLate 0 1) 1 0 1 (by decide +kernel)
    (by decide +kernel) (by decide +kernel) (by decide +kernel) (by decide +kernel)
    (by decide +kernel)
  apply List.eq_nil_iff_forall_not_mem.mpr
  intro payload hmem
  apply Nat.not_lt_zero _ (h payload ?_)
  rw [sentBy_append, flashblockTx_append]
  exact List.mem_append_right _ hmem

end WorldChain.P2p.Latecomer
