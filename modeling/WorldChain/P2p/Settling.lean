import Mathlib.Algebra.Order.BigOperators.Group.Finset
import Mathlib.Data.Fintype.BigOperators
import WorldChain.P2p.Delivery

/-! A network that carries one payload can always come to rest. -/
namespace WorldChain.P2p.Settling
open Library Library.Runs Wire.Primitives Wire.Message Wire.Alloy
open Publish OrderedState Connection Poll Peers AcrossPayloads Honest WithinPayload Channels
open Spreading Delivery

variable {ι : Type} [Fintype ι] {D : Codecs FlashblockMetadata} {linked : ι → ι → Bool}
variable {id : PayloadId} {calls : List (ι × FlashblocksPayload)}
variable {histories : ι → List (Int × FlashblocksPayload)} {start mesh : Mesh ι}
variable {sent : ι → List Sent}

theorem sum_pairs_lt {weight weight' : ι → ι → Nat} (hle : ∀ n m, weight' n m ≤ weight n m)
    {a b : ι} (hlt : weight' a b < weight a b) :
    ∑ pair : ι × ι, weight' pair.1 pair.2 < ∑ pair : ι × ι, weight pair.1 pair.2 :=
  Finset.sum_lt_sum (fun pair _ => hle pair.1 pair.2) ⟨(a, b), Finset.mem_univ _, hlt⟩

def load (mesh : Mesh ι) : Nat := ∑ pair : ι × ι, (mesh.underway pair.1 pair.2).length

def missing (calls : List (ι × FlashblocksPayload))
    (histories : ι → List (Int × FlashblocksPayload)) : Nat :=
  ∑ n, ((calls.map Prod.snd).toFinset \ ((histories n).map Prod.snd).toFinset).card

/-- A flashblock that is new to a node adds at most one on each of its links. -/
def potential (calls : List (ι × FlashblocksPayload))
    (histories : ι → List (Int × FlashblocksPayload)) (mesh : Mesh ι) : Nat :=
  load mesh + Fintype.card ι * missing calls histories

variable [DecidableEq ι]

theorem load_setUnderway {sender receiver : ι} {payloads : List FlashblocksPayload}
    (hless : payloads.length < (mesh.underway sender receiver).length) :
    load (mesh.setUnderway sender receiver payloads) < load mesh := by
  refine @sum_pairs_lt _ _ (fun n m => (mesh.underway n m).length)
    (fun n m => ((mesh.setUnderway sender receiver payloads).underway n m).length) ?_ sender
    receiver ?_
  · intro n m
    rw [setUnderway_underway]
    split
    · rename_i hpair
      rw [hpair.1, hpair.2]
      exact hless.le
    · exact le_rfl
  · rw [setUnderway_underway, if_pos ⟨rfl, rfl⟩]
    exact hless

theorem load_publish (mesh : Mesh ι) (node : ι) (now : Int) (payload : FlashblocksPayload) :
    load (mesh.publish D linked node now payload) ≤
      load mesh + Fintype.card ι * (passedOn D now (mesh.states node) payload).length := by
  have hpair : ∀ pair : ι × ι,
      ((mesh.publish D linked node now payload).underway pair.1 pair.2).length ≤
        (mesh.underway pair.1 pair.2).length +
          if pair.1 = node then (passedOn D now (mesh.states node) payload).length else 0 := by
    intro pair
    unfold Mesh.publish
    dsimp only
    by_cases hnode : pair.1 = node
    · rw [if_pos hnode]
      split
      · rw [List.length_append]
      · omega
    · rw [if_neg hnode, if_neg fun h => hnode h.1]
      rfl
  have hsum : ∑ pair : ι × ι,
      (if pair.1 = node then (passedOn D now (mesh.states node) payload).length else 0) =
        Fintype.card ι * (passedOn D now (mesh.states node) payload).length := by
    rw [Fintype.sum_prod_type_right]
    simp
  calc load (mesh.publish D linked node now payload)
      ≤ ∑ pair : ι × ι, ((mesh.underway pair.1 pair.2).length +
          if pair.1 = node then (passedOn D now (mesh.states node) payload).length else 0) :=
        Finset.sum_le_sum fun pair _ => hpair pair
    _ = load mesh + Fintype.card ι * (passedOn D now (mesh.states node) payload).length := by
        rw [Finset.sum_add_distrib, hsum]
        rfl

omit [Fintype ι] in
theorem sdiff_hand_subset (calls : List (ι × FlashblocksPayload))
    (histories : ι → List (Int × FlashblocksPayload)) (node n : ι) (now : Int)
    (payload : FlashblocksPayload) :
    (calls.map Prod.snd).toFinset \ ((hand histories node now payload n).map Prod.snd).toFinset ⊆
      (calls.map Prod.snd).toFinset \ ((histories n).map Prod.snd).toFinset := by
  apply Finset.sdiff_subset_sdiff subset_rfl
  intro other hother
  rw [List.mem_toFinset] at hother ⊢
  exact (mem_hand ..).mpr (.inr hother)

theorem missing_hand_le (calls : List (ι × FlashblocksPayload))
    (histories : ι → List (Int × FlashblocksPayload)) (node : ι) (now : Int)
    (payload : FlashblocksPayload) :
    missing calls (hand histories node now payload) ≤ missing calls histories :=
  Finset.sum_le_sum fun _ _ => Finset.card_le_card (sdiff_hand_subset ..)

theorem missing_hand_lt {node : ι} {payload : FlashblocksPayload}
    (hpublished : payload ∈ calls.map Prod.snd)
    (hnew : payload ∉ (histories node).map Prod.snd) (now : Int) :
    missing calls (hand histories node now payload) < missing calls histories := by
  have hknown : payload ∈ (hand histories node now payload node).map Prod.snd :=
    (mem_hand ..).mpr (.inl ⟨rfl, rfl⟩)
  refine Finset.sum_lt_sum (fun _ _ => Finset.card_le_card (sdiff_hand_subset ..))
    ⟨node, Finset.mem_univ node, Finset.card_lt_card ?_⟩
  rw [Finset.ssubset_iff_of_subset (sdiff_hand_subset ..)]
  refine ⟨payload, ?_, ?_⟩
  · rw [Finset.mem_sdiff, List.mem_toFinset, List.mem_toFinset]
    exact ⟨hpublished, hnew⟩
  · rw [Finset.mem_sdiff, List.mem_toFinset, List.mem_toFinset, not_and, not_not]
    exact fun _ => hknown

theorem missing_handled {state : FlashblocksP2PState} (hblank : Blank id state) {node : ι}
    (hhistory : OfPayload D id ((histories node).map Prod.snd)) {payload : FlashblocksPayload}
    (hid : payload.payloadId = id) (hpublished : payload ∈ calls.map Prod.snd) (now : Int) :
    missing calls (hand histories node now payload) +
        (passedOn D now (run (encode D) state (histories node)).1 payload).length ≤
      missing calls histories := by
  by_cases hknown : payload ∈ (histories node).map Prod.snd
  · rw [passedOn_taken hblank hhistory hid hknown rfl]
    exact missing_hand_le calls histories node now payload
  · have hlt := missing_hand_lt hpublished hknown now
    have hone : (passedOn D now (run (encode D) state (histories node)).1 payload).length ≤ 1 := by
      unfold passedOn
      split <;> simp
    omega

theorem lighter_of_move (h : Spread D linked id start calls sent mesh histories)
    (hblank : ∀ n, Blank id (start.states n)) (hpayload : OfPayload D id (calls.map Prod.snd))
    (hfamily : Family (calls.map Prod.snd)) {sent' : ι → List Sent} {mesh' : Mesh ι}
    (hmove : Move D linked mesh sent' mesh') :
    ∃ histories', Spread D linked id start calls (fun n => sent n ++ sent' n) mesh' histories' ∧
      potential calls histories' mesh' < potential calls histories mesh := by
  cases hmove with
  | withheld sender receiver before after payload hunderway hmarked =>
      have hnext := h.withheld hpayload hfamily hunderway hmarked
      refine ⟨histories, by simpa using hnext, ?_⟩
      apply Nat.add_lt_add_right
      apply load_setUnderway
      simp [hunderway]
  | repeated sender receiver payload rest connection hunderway hstops hmarks =>
      have hnext := h.repeated hpayload hfamily hunderway hstops hmarks
      refine ⟨histories, by simpa using hnext, ?_⟩
      apply Nat.add_lt_add_right
      exact load_setUnderway (by simp [hunderway])
  | handled sender receiver now payload rest connection hunderway hpasses hmarks =>
      refine ⟨_, h.handled hpayload hfamily hblank hunderway hmarks now, ?_⟩
      have hmem : payload ∈ mesh.underway sender receiver := by simp [hunderway]
      have hpublished := h.handed (h.sent_known hmem).2
      have hgiven : OfPayload D id ((histories receiver).map Prod.snd) := fun other hother =>
        hpayload other (h.handed hother)
      have hmissing := missing_handled (hblank receiver) hgiven (hpayload payload hpublished).1
        hpublished now
      rw [h.history] at hmissing
      dsimp only at hmissing
      have hweight := Nat.mul_le_mul_left (Fintype.card ι) hmissing
      rw [Nat.mul_add] at hweight
      have htaken : load ((mesh.setUnderway sender receiver rest).setConnection receiver sender
          connection) < load mesh := load_setUnderway (by simp [hunderway])
      have hload := @load_publish _ _ D linked _ ((mesh.setUnderway sender receiver
        rest).setConnection receiver sender connection) receiver now payload
      have hstates : ((mesh.setUnderway sender receiver rest).setConnection receiver sender
          connection).states = mesh.states := rfl
      rw [hstates] at hload
      unfold potential
      omega

/-- Messages in a queue have two stages before them, those on a wire one. -/
def stage (net : Network ι) : Nat :=
  ∑ pair : ι × ι,
    (2 * (net.links pair.1 pair.2).peerRx.length + (net.wires pair.1 pair.2).length)

omit [DecidableEq ι] in
theorem stage_lt {net net' : Network ι} {node peer : ι}
    (hpair : ∀ n m, n = node ∧ m = peer ∨
      (net'.links n m).peerRx = (net.links n m).peerRx ∧ net'.wires n m = net.wires n m)
    (hlt : 2 * (net'.links node peer).peerRx.length + (net'.wires node peer).length <
      2 * (net.links node peer).peerRx.length + (net.wires node peer).length) :
    stage net' < stage net := by
  refine @sum_pairs_lt _ _
    (fun n m => 2 * (net.links n m).peerRx.length + (net.wires n m).length)
    (fun n m => 2 * (net'.links n m).peerRx.length + (net'.wires n m).length) ?_ node peer hlt
  intro n m
  rcases hpair n m with ⟨rfl, rfl⟩ | ⟨hpeerRx, hwire⟩
  · exact hlt.le
  · rw [hpeerRx, hwire]

theorem stage_setLink {net : Network ι} {node peer : ι} {link : Link}
    (hpeerRx : link.peerRx = (net.links node peer).peerRx) :
    stage (net.setLink node peer link) = stage net := by
  apply Finset.sum_congr rfl
  intro pair _
  rw [setLink_same Link.peerRx hpeerRx]
  rfl

def Nearer (D : Codecs FlashblockMetadata) (linked : ι → ι → Bool) (id : PayloadId)
    (start : Mesh ι) (calls : List (ι × FlashblocksPayload)) (weight stages : Nat)
    (net : Network ι) : Prop :=
  ∃ sent mesh histories, Represents D net mesh ∧
    Spread D linked id start calls sent mesh histories ∧
    (potential calls histories mesh < weight ∨
      potential calls histories mesh = weight ∧ stage net < stages)

section
variable (hblank : ∀ n, Blank id (start.states n)) (hpayload : OfPayload D id (calls.map Prod.snd))
variable (hfamily : Family (calls.map Prod.snd))
include hblank hpayload hfamily

theorem nearer_of_moves (h : Spread D linked id start calls sent mesh histories)
    {after : Network ι × List (Output ι)} (hmoves : Moves D linked mesh after) (stages : Nat) :
    Nearer D linked id start calls (potential calls histories mesh) stages after.1 := by
  obtain ⟨sent', mesh', hmove, hafter, _⟩ := hmoves
  obtain ⟨histories', hnext, hlt⟩ := lighter_of_move h hblank hpayload hfamily hmove
  exact ⟨_, mesh', histories', hafter, hnext, .inl hlt⟩

theorem nearer_outbound (h : Spread D linked id start calls sent mesh histories)
    {net : Network ι} (hnet : Represents D net mesh) {node peer : ι}
    (hready : ¬(net.links node peer).receiving) (hpeerRx : (net.links node peer).peerRx ≠ []) :
    Nearer D linked id start calls (potential calls histories mesh) (stage net)
      (net.step D linked (.outbound node peer)).1 := by
  obtain ⟨item, rest, hqueue⟩ := List.exists_cons_of_ne_nil hpeerRx
  rcases @outbound_first _ _ D linked _ _ hnet _ _ hready _ _ hqueue with
    hmoves | ⟨bytes, hstep, hnext⟩
  · exact nearer_of_moves hblank hpayload hfamily h hmoves _
  · refine ⟨sent, mesh, histories, hnext, h, .inr ⟨rfl, ?_⟩⟩
    rw [hstep]
    refine @stage_lt _ _ _ _ node peer ?_ ?_
    · intro n m
      by_cases hpair : n = node ∧ m = peer
      · exact .inl hpair
      · right
        rw [setWire_links, setLink_links, setWire_wires, if_neg hpair, if_neg hpair]
        exact ⟨rfl, rfl⟩
    · rw [setWire_links, setLink_links, setWire_wires, if_pos ⟨rfl, rfl⟩, if_pos ⟨rfl, rfl⟩,
        hqueue, List.length_cons, List.length_append, List.length_singleton]
      dsimp only
      omega

omit hblank hpayload hfamily in
theorem nearer_deliver (h : Spread D linked id start calls sent mesh histories)
    {net : Network ι} (hnet : Represents D net mesh) {sender receiver : ι}
    (hwire : net.wires sender receiver ≠ []) :
    Nearer D linked id start calls (potential calls histories mesh) (stage net)
      (net.step D linked (.deliver sender receiver)).1 := by
  obtain ⟨bytes, rest, hfirst⟩ := List.exists_cons_of_ne_nil hwire
  obtain ⟨hstep, hnext⟩ := @deliver_first _ _ D linked _ _ hnet _ _ _ _ hfirst
  refine ⟨sent, mesh, histories, hnext, h, .inr ⟨rfl, ?_⟩⟩
  rw [hstep]
  have hpeerRx : ∀ n m, ((net.setLink receiver sender { net.links receiver sender with
      inbound := (net.links receiver sender).inbound ++ [bytes] }).links n m).peerRx =
        (net.links n m).peerRx :=
    setLink_same Link.peerRx rfl
  refine @stage_lt _ _ _ _ sender receiver ?_ ?_
  · intro n m
    by_cases hpair : n = sender ∧ m = receiver
    · exact .inl hpair
    · right
      rw [setWire_links, hpeerRx, setWire_wires, if_neg hpair]
      exact ⟨rfl, rfl⟩
  · rw [setWire_links, hpeerRx, setWire_wires, if_pos ⟨rfl, rfl⟩, hfirst, List.length_cons]
    omega

/-- A connection with something to do gets on with it in at most two halves of a round. -/
theorem nearer_link (hD : D.Lawful) (h : Spread D linked id start calls sent mesh histories)
    {net : Network ι} (hnet : Represents D net mesh) (node peer : ι)
    (hbusy : (net.links node peer).peerRx ≠ [] ∨ (net.links node peer).inbound ≠ []) :
    ∃ events, publishedNew events = [] ∧
      Nearer D linked id start calls (potential calls histories mesh) (stage net)
        (exec (Network.step D linked) net events).1 := by
  by_cases hreceiving : (net.links node peer).receiving
  · by_cases hinbound : (net.links node peer).inbound = []
    · have hpeerRx := hbusy.resolve_right (not_not.mpr hinbound)
      obtain ⟨hstep, hnext⟩ := @inbound_empty _ _ D linked _ _ hnet _ _ hreceiving hinbound 0
      refine ⟨[.inbound node peer 0, .outbound node peer], rfl, ?_⟩
      have hrun : (exec (Network.step D linked) net [.inbound node peer 0, .outbound node peer]).1 =
          ((net.step D linked (.inbound node peer 0)).1.step D linked (.outbound node peer)).1 := rfl
      have hstage : stage (net.setLink node peer
          { net.links node peer with inbound := [], receiving := false }) = stage net :=
        stage_setLink rfl
      rw [hstep] at hnext
      rw [hrun, hstep, ← hstage]
      apply nearer_outbound hblank hpayload hfamily h hnext
      · simp
      · simpa using hpeerRx
    · refine ⟨[.inbound node peer 0], rfl, ?_⟩
      exact nearer_of_moves hblank hpayload hfamily h (inbound_first hD hnet hreceiving hinbound 0) _
  · by_cases hpeerRx : (net.links node peer).peerRx = []
    · have hinbound := hbusy.resolve_left (not_not.mpr hpeerRx)
      obtain ⟨hstep, hnext⟩ := @outbound_empty _ _ D linked _ _ hnet _ _ hreceiving hpeerRx
      refine ⟨[.outbound node peer, .inbound node peer 0], rfl, ?_⟩
      have hrun : (exec (Network.step D linked) net [.outbound node peer, .inbound node peer 0]).1 =
          ((net.step D linked (.outbound node peer)).1.step D linked (.inbound node peer 0)).1 := rfl
      rw [hstep] at hnext
      rw [hrun, hstep]
      refine nearer_of_moves hblank hpayload hfamily h (inbound_first hD hnext ?_ ?_ 0) _
      · simp
      · simpa using hinbound
    · refine ⟨[.outbound node peer], rfl, ?_⟩
      exact nearer_outbound hblank hpayload hfamily h hnet hreceiving hpeerRx

theorem nearer (hD : D.Lawful) (h : Spread D linked id start calls sent mesh histories)
    {net : Network ι} (hnet : Represents D net mesh) (hbusy : ¬AtRest net) :
    ∃ events, publishedNew events = [] ∧
      Nearer D linked id start calls (potential calls histories mesh) (stage net)
        (exec (Network.step D linked) net events).1 := by
  unfold AtRest at hbusy
  push Not at hbusy
  obtain ⟨n, m, hbusy⟩ := hbusy
  by_cases hpeerRx : (net.links n m).peerRx = []
  · by_cases hwire : net.wires n m = []
    · exact nearer_link hblank hpayload hfamily hD h hnet n m (.inr (hbusy hpeerRx hwire))
    · exact ⟨[.deliver n m], rfl, nearer_deliver h hnet hwire⟩
  · exact nearer_link hblank hpayload hfamily hD h hnet n m (.inl hpeerRx)

/-- By induction on what is before the network: first on the flashblocks, then on the stages
of their messages. -/
theorem settles (hD : D.Lawful) (weight stages : Nat) {net : Network ι}
    (hnearer : Nearer D linked id start calls weight stages net) :
    ∃ events, publishedNew events = [] ∧ AtRest (exec (Network.step D linked) net events).1 := by
  induction weight using Nat.strong_induction_on generalizing stages net with
  | _ weight ihweight =>
      induction stages using Nat.strong_induction_on generalizing net with
      | _ stages ihstages =>
          obtain ⟨sent, mesh, histories, hnet, hspread, hless⟩ := hnearer
          by_cases hrest : AtRest net
          · exact ⟨[], rfl, hrest⟩
          obtain ⟨events, hquiet, hnext⟩ := nearer hblank hpayload hfamily hD hspread hnet hrest
          have hsettles : ∃ more, publishedNew more = [] ∧ AtRest (exec (Network.step D linked)
              (exec (Network.step D linked) net events).1 more).1 := by
            rcases hless with hlt | ⟨rfl, hlt⟩
            · exact ihweight _ hlt _ hnext
            · exact ihstages _ hlt hnext
          obtain ⟨more, hmore, hdone⟩ := hsettles
          refine ⟨events ++ more, ?_, ?_⟩
          · unfold publishedNew at hquiet hmore ⊢
            rw [List.filterMap_append, hquiet, hmore]
            rfl
          · rw [exec_append]
            exact hdone

end

/-- However far the messages of a payload have come, in a network at rest before it: the
network can come to rest again, with nothing more published. -/
theorem comes_to_rest (hD : D.Lawful) (linked : ι → ι → Bool) (earlier events : List (Event ι))
    (id : PayloadId) (hrest : AtRest (exec (Network.step D linked) {} earlier).1)
    (hearlier : ∀ call ∈ publishedNew earlier, call.2.payloadId ≠ id)
    (hevents : OfPayload D id ((publishedNew events).map Prod.snd))
    (hfamily : Family ((publishedNew events).map Prod.snd)) :
    ∃ more, publishedNew more = [] ∧
      AtRest (exec (Network.step D linked) (exec (Network.step D linked) {} earlier).1
        (events ++ more)).1 := by
  obtain ⟨start, mesh, histories, hblank, hmesh, hspread⟩ :=
    spread_run hD linked earlier events hrest hearlier hevents hfamily
  obtain ⟨more, hquiet, hdone⟩ := settles hblank hevents hfamily hD
    (potential (publishedNew events) histories mesh + 1) 0
    ⟨_, mesh, histories, hmesh, hspread, .inl (Nat.lt_succ_self _)⟩
  refine ⟨more, hquiet, ?_⟩
  rw [exec_append]
  exact hdone

theorem comes_to_rest_queued :
    ∃ more : List (Event (Fin 3)), publishedNew more = [] ∧
      AtRest (exec (Network.step sampleCodecs fun n m => n ≠ m) {}
        ([.publishNew 0 22 (timed 2 1 2), .publishNew 1 23 (timed 2 0 2)] ++ more)).1 :=
  comes_to_rest sample_lawful (fun n m : Fin 3 => n ≠ m) []
    [.publishNew 0 22 (timed 2 1 2), .publishNew 1 23 (timed 2 0 2)] 2 (by decide +kernel)
    (by decide +kernel) (by decide +kernel) (by decide +kernel)

end WorldChain.P2p.Settling
