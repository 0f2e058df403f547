import WorldChain.P2p.Provenance
import WorldChain.P2p.Spreading

/-! Delivery of one payload: a network that is at rest has delivered to every node what was
published of it at the nodes from which links lead there. -/
namespace WorldChain.P2p.Delivery
open Relation Library Library.Runs Library.Flooding Wire.Primitives Wire.Message Wire.Alloy
open Publish Poll Peers AcrossPayloads Honest Channels Provenance Spreading

variable {ι : Type} {D : Codecs FlashblockMetadata} {id : PayloadId} {mesh : Mesh ι}

/-- Nothing is queued, on its way, or has arrived. -/
def AtRest (net : Network ι) : Prop :=
  ∀ n m, (net.links n m).peerRx = [] ∧ net.wires n m = [] ∧ (net.links n m).inbound = []

instance [Fintype ι] (net : Network ι) : Decidable (AtRest net) :=
  inferInstanceAs (Decidable (∀ n m,
    (net.links n m).peerRx = [] ∧ net.wires n m = [] ∧ (net.links n m).inbound = []))

theorem underway_at_rest {net : Network ι} (h : Represents D net mesh) (hrest : AtRest net)
    (n m : ι) : mesh.underway n m = [] := by
  obtain ⟨arrived, flying, queued, hunderway, hinbound, hwire, hpeerRx⟩ := h.pipes n m
  rw [(hrest m n).2.2] at hinbound
  rw [(hrest n m).2.1] at hwire
  rw [(hrest n m).1] at hpeerRx
  rw [← hunderway, List.map_eq_nil_iff.mp hinbound.symm, List.map_eq_nil_iff.mp hwire.symm,
    List.map_eq_nil_iff.mp hpeerRx.symm]
  rfl

variable {linked : ι → ι → Bool} {start mesh : Mesh ι} {calls : List (ι × FlashblocksPayload)}
variable {sent : ι → List Sent} {histories : ι → List (Int × FlashblocksPayload)} {node : ι}
variable {reaching : List FlashblocksPayload}

theorem sourced_mem {payload : FlashblocksPayload} (h : Sourced linked calls node payload) :
    payload ∈ calls.map Prod.snd := by
  obtain ⟨call, hcall, rfl, _⟩ := h
  exact List.mem_map_of_mem hcall

theorem sourced_iff (payload : FlashblocksPayload) : Sourced linked calls node payload ↔
    payload ∈ (flood calls histories mesh).reached (fun n m => linked n m) node := by
  constructor
  · rintro ⟨⟨source, _⟩, hcall, rfl, hpath⟩
    exact ⟨source, hcall, hpath⟩
  · rintro ⟨source, hcall, hpath⟩
    exact ⟨(source, payload), hcall, rfl, hpath⟩

theorem emitted_eq (h : Spread D linked id start calls sent mesh histories)
    (hblank : ∀ n, Blank id (start.states n)) (hcalls : OfPayload D id (calls.map Prod.snd)) :
    flashblockTx (sent node) = contiguous ((histories node).map Prod.snd) := by
  have hemitted := @emitted_history D id (start.states node) (histories node) (hblank node)
    fun payload hpayload => hcalls payload (h.handed hpayload)
  rw [h.history] at hemitted
  exact hemitted

theorem emitted_prefix (h : Spread D linked id start calls sent mesh histories)
    (hblank : ∀ n, Blank id (start.states n)) (hcalls : OfPayload D id (calls.map Prod.snd))
    (hfamily : Family (calls.map Prod.snd))
    (hreaching : ∀ payload, payload ∈ reaching ↔ Sourced linked calls node payload) :
    flashblockTx (sent node) <+: contiguous reaching := by
  have hpublished : ∀ payload ∈ reaching, payload ∈ calls.map Prod.snd :=
    fun payload hpayload => sourced_mem ((hreaching payload).mp hpayload)
  rw [emitted_eq h hblank hcalls]
  apply contiguous_prefix
  · exact fun a ha b hb => hfamily a (hpublished a ha) b (hpublished b hb)
  · exact fun payload hpayload => (hcalls payload (hpublished payload hpayload)).2.index
  · exact fun payload hpayload => (hreaching payload).mpr
      ((sourced_iff payload).mpr (h.flooded.sourced node hpayload))

theorem emitted_at_rest {net : Network ι} (hmesh : Represents D net mesh) (hquiet : AtRest net)
    (h : Spread D linked id start calls sent mesh histories)
    (hblank : ∀ n, Blank id (start.states n)) (hcalls : OfPayload D id (calls.map Prod.snd))
    (hfamily : Family (calls.map Prod.snd))
    (hreaching : ∀ payload, payload ∈ reaching ↔ Sourced linked calls node payload) :
    flashblockTx (sent node) = contiguous reaching := by
  have hpublished : ∀ payload ∈ reaching, payload ∈ calls.map Prod.snd :=
    fun payload hpayload => sourced_mem ((hreaching payload).mp hpayload)
  have hnone : ∀ n m, (flood calls histories mesh).underway n m = ∅ := by
    intro n m
    simp [flood, underway_at_rest hmesh hquiet n m]
  rw [emitted_eq h hblank hcalls]
  apply contiguous_congr
  · exact fun a ha b hb => hfamily a (hpublished a ha) b (hpublished b hb)
  · exact fun payload hpayload => (hcalls payload (hpublished payload hpayload)).2.index
  · intro payload
    rw [hreaching, @sourced_iff _ linked mesh calls histories, ← h.flooded.knows_eq hnone]
    rfl

variable [DecidableEq ι]

theorem untouched_run (hD : D.Lawful) (linked : ι → ι → Bool) {earlier : List (Event ι)}
    (hearlier : ∀ call ∈ publishedNew earlier, call.2.payloadId ≠ id) :
    ∃ mesh, Represents D (exec (Network.step D linked) {} earlier).1 mesh ∧ Untouched id mesh := by
  obtain ⟨mesh, hmesh, huntouched⟩ := exec_channels hD represents_start
    (fun calls _ mesh => (∀ call ∈ calls, call.2.payloadId ≠ id) → Untouched id mesh)
    (fun _ => untouched_start id)
    (fun calls _ _ h more _ _ hturn hcalls =>
      (h fun call hcall => hcalls call (List.mem_append_left _ hcall)).turn hturn
        fun call hcall => hcalls call (List.mem_append_right _ hcall)) earlier
  exact ⟨mesh, hmesh, huntouched hearlier⟩

/-- The run of the payload, on a network that is at rest before it. -/
theorem spread_run (hD : D.Lawful) (linked : ι → ι → Bool) (earlier events : List (Event ι))
    (hrest : AtRest (exec (Network.step D linked) {} earlier).1)
    (hearlier : ∀ call ∈ publishedNew earlier, call.2.payloadId ≠ id)
    (hevents : OfPayload D id ((publishedNew events).map Prod.snd))
    (hfamily : Family ((publishedNew events).map Prod.snd)) :
    let reached := exec (Network.step D linked) (exec (Network.step D linked) {} earlier).1 events
    ∃ start mesh histories, (∀ n, Blank id (start.states n)) ∧ Represents D reached.1 mesh ∧
      Spread D linked id start (publishedNew events) (fun n => sentBy n reached.2) mesh
        histories := by
  obtain ⟨start, hstart, huntouched⟩ := untouched_run hD linked hearlier
  have hfirst : Spread D linked id start [] (fun _ => []) start (fun _ => []) :=
    huntouched.spread (underway_at_rest hstart hrest)
  obtain ⟨mesh, hmesh, hspread⟩ := exec_channels hD hstart
    (fun calls sent mesh => OfPayload D id (calls.map Prod.snd) → Family (calls.map Prod.snd) →
      ∃ histories, Spread D linked id start calls sent mesh histories)
    (fun _ _ => ⟨_, hfirst⟩)
    (fun calls sent mesh h more sent' mesh' hturn hpayload hfamily => by
      have hpayload' := hpayload
      have hfamily' := hfamily
      rw [List.map_append] at hpayload' hfamily'
      obtain ⟨histories, hold⟩ := h hpayload'.of_append hfamily'.of_append
      exact hold.turn huntouched.blank hturn hpayload hfamily) events
  obtain ⟨histories, hspread⟩ := hspread hevents hfamily
  exact ⟨start, mesh, histories, huntouched.blank, hmesh, hspread⟩

/-- A payload that follows on a network at rest: whatever the links and whatever the order of
events, every node emits a contiguous part of what was published at the nodes from which
links lead to it, and all of it as soon as the network is at rest again. -/
theorem delivered (hD : D.Lawful) (linked : ι → ι → Bool) (earlier events : List (Event ι))
    (id : PayloadId) (hrest : AtRest (exec (Network.step D linked) {} earlier).1)
    (hearlier : ∀ call ∈ publishedNew earlier, call.2.payloadId ≠ id)
    (hevents : OfPayload D id ((publishedNew events).map Prod.snd))
    (hfamily : Family ((publishedNew events).map Prod.snd)) (node : ι)
    (reaching : List FlashblocksPayload)
    (hreaching : ∀ payload,
      payload ∈ reaching ↔ Sourced linked (publishedNew events) node payload) :
    let reached := exec (Network.step D linked) (exec (Network.step D linked) {} earlier).1 events
    flashblockTx (sentBy node reached.2) <+: contiguous reaching ∧
      (AtRest reached.1 → flashblockTx (sentBy node reached.2) = contiguous reaching) := by
  obtain ⟨start, mesh, histories, hblank, hmesh, hspread⟩ :=
    spread_run hD linked earlier events hrest hearlier hevents hfamily
  have hemitted := emitted_prefix hspread hblank hevents hfamily hreaching
  refine ⟨hemitted, ?_⟩
  intro hquiet
  have hall := emitted_at_rest hmesh hquiet hspread hblank hevents hfamily hreaching
  exact hall

def firstDone (publisher node : ι) : List (Event ι) :=
  [.publishNew publisher 20 (timed 1 0 1), .outbound publisher node, .deliver publisher node,
    .outbound node publisher, .inbound node publisher 21, .outbound node publisher]

def reversed (publisher node : ι) : List (Event ι) :=
  [.publishNew publisher 22 (timed 2 1 2), .publishNew publisher 23 (timed 2 0 2),
    .outbound publisher node, .outbound publisher node, .deliver publisher node,
    .deliver publisher node, .inbound node publisher 24, .outbound node publisher,
    .inbound node publisher 25, .outbound node publisher]

theorem delivered_reversed :
    flashblockTx (sentBy 1 (exec (Network.step sampleCodecs fun n m : Fin 2 => n ≠ m)
      (exec (Network.step sampleCodecs fun n m : Fin 2 => n ≠ m) {} (firstDone 0 1)).1
        (reversed 0 1)).2) =
        [timed 2 0 2, timed 2 1 2] := by
  have h := delivered sample_lawful (fun n m : Fin 2 => n ≠ m) (firstDone 0 1)
    (reversed 0 1) 2
    (by decide +kernel) (by decide +kernel) (by decide +kernel) (by decide +kernel) 1
    [timed 2 1 2, timed 2 0 2] (by
      intro payload
      have hpath : ReflTransGen (fun n m : Fin 2 => decide (n ≠ m)) 0 1 := .single rfl
      constructor
      · intro hmem
        exact ⟨(0, payload), by simpa [publishedNew, reversed] using hmem, rfl, hpath⟩
      · rintro ⟨call, hmem, rfl, _⟩
        simp only [publishedNew, reversed, List.filterMap_cons, List.filterMap_nil] at hmem
        rcases List.mem_pair.mp hmem with rfl | rfl
        · exact List.mem_pair.mpr (.inl rfl)
        · exact List.mem_pair.mpr (.inr rfl))
  rw [h.2 (by decide +kernel)]
  decide +kernel
end WorldChain.P2p.Delivery
