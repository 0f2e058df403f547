import WorldChain.Library.Flooding
import WorldChain.P2p.Channels
import WorldChain.P2p.WithinPayload

/-! How one payload spreads: with one content for each index, the channels of the network
flood what is published of it. -/
namespace WorldChain.P2p.Spreading
open Relation Library Library.ReorderBuffer Library.Runs Library.Flooding
open Wire.Primitives Wire.Message Wire.Alloy
open Publish OrderedState Connection Poll Peers AcrossPayloads Honest WithinPayload Channels

def contiguous (payloads : List FlashblocksPayload) : List FlashblocksPayload :=
  filledPrefix ((List.range (maxFlashblockIndex + 1)).map (firstDelivered payloads))

def Family (payloads : List FlashblocksPayload) : Prop :=
  ∀ a ∈ payloads, ∀ b ∈ payloads, a.index = b.index → a = b

def Blank (id : PayloadId) (state : FlashblocksP2PState) : Prop :=
  state.payloadId = id → state.flashblockIndex = 0 ∧ ∀ i, slot state.flashblocks i = none

variable {D : Codecs FlashblockMetadata} {id : PayloadId} {state : FlashblocksP2PState}
variable {history : List (Int × FlashblocksPayload)}

theorem slot_range (payloads : List FlashblocksPayload)
    (hindex : ∀ payload ∈ payloads, payload.index.toNat ≤ maxFlashblockIndex) (i : Nat) :
    slot ((List.range (maxFlashblockIndex + 1)).map (firstDelivered payloads)) i =
      firstDelivered payloads i := by
  unfold slot
  rw [List.getElem?_map]
  by_cases hi : i < maxFlashblockIndex + 1
  · rw [List.getElem?_range hi]
    rfl
  · rw [List.getElem?_eq_none (by simpa using hi)]
    cases hfirst : firstDelivered payloads i with
    | none => rfl
    | some payload =>
        obtain ⟨hmem, rfl⟩ := firstDelivered_index hfirst
        exact absurd (hindex payload hmem) (by omega)

theorem contiguous_prefix {left right : List FlashblocksPayload} (hfamily : Family right)
    (hindex : ∀ payload ∈ right, payload.index.toNat ≤ maxFlashblockIndex)
    (hsub : ∀ payload ∈ left, payload ∈ right) : contiguous left <+: contiguous right := by
  apply filledPrefix_prefix
  intro i payload hslot
  rw [slot_range _ fun p hp => hindex p (hsub p hp)] at hslot
  obtain ⟨hmem, hi⟩ := firstDelivered_index hslot
  rw [slot_range _ hindex, firstDelivered_eq_some_iff hfamily]
  exact ⟨hsub payload hmem, hi⟩

theorem contiguous_congr {left right : List FlashblocksPayload} (hfamily : Family right)
    (hindex : ∀ payload ∈ right, payload.index.toNat ≤ maxFlashblockIndex)
    (hsame : ∀ payload, payload ∈ left ↔ payload ∈ right) : contiguous left = contiguous right := by
  have hfamily' : Family left := fun a ha b hb =>
    hfamily a ((hsame a).mp ha) b ((hsame b).mp hb)
  have hleft := contiguous_prefix hfamily hindex fun p hp => (hsame p).mp hp
  have hright := contiguous_prefix hfamily' (fun p hp => hindex p ((hsame p).mp hp))
    fun p hp => (hsame p).mpr hp
  exact hleft.eq_of_length (Nat.le_antisymm hleft.length_le hright.length_le)

/-- Calls that all hand in flashblocks of one payload, within its limits. -/
def OfPayload (D : Codecs FlashblockMetadata) (id : PayloadId)
    (payloads : List FlashblocksPayload) : Prop :=
  ∀ payload ∈ payloads, payload.payloadId = id ∧ WithinLimits (encode D) payload

instance (encode : FlashblocksPayload → Bytes) (payload : FlashblocksPayload) :
    Decidable (WithinLimits encode payload) :=
  decidable_of_iff (payload.index.toNat ≤ maxFlashblockIndex ∧ (encode payload).length ≤ maxFrame)
    ⟨fun h => ⟨h.1, h.2⟩, fun h => ⟨h.index, h.frame⟩⟩

instance (payloads : List FlashblocksPayload) : Decidable (OfPayload D id payloads) :=
  inferInstanceAs (Decidable (∀ payload ∈ payloads,
    payload.payloadId = id ∧ WithinLimits (encode D) payload))

instance (payloads : List FlashblocksPayload) : Decidable (Family payloads) :=
  inferInstanceAs (Decidable (∀ a ∈ payloads, ∀ b ∈ payloads, a.index = b.index → a = b))

theorem collected_of_blank (hblank : Blank id state) (hne : history ≠ [])
    (hhistory : OfPayload D id (history.map Prod.snd)) :
    Collected (encode D) id state.flashblocks.length (history.map Prod.snd)
      (run (encode D) state history) := by
  have hcalls : ∀ call ∈ history, call.2.payloadId = id ∧ WithinLimits (encode D) call.2 :=
    fun call hcall => hhistory call.2 (List.mem_map_of_mem hcall)
  by_cases hid : state.payloadId = id
  · exact collected_run hid (hblank hid).1 (hblank hid).2 history hcalls
  · exact collected_of_new_payload hid hne hcalls

theorem slot_history (hblank : Blank id state)
    (hhistory : OfPayload D id (history.map Prod.snd)) {payload : FlashblocksPayload}
    (hid : payload.payloadId = id) (i : Nat) :
    slot ((run (encode D) state history).1.resetFor payload).flashblocks i =
      firstDelivered (history.map Prod.snd) i := by
  by_cases hne : history = []
  · subst hne
    by_cases hsame : payload.payloadId = state.payloadId
    · rw [run, exec_nil, resetFor_of_eq hsame]
      exact (hblank (hsame.symm.trans hid)).2 i
    · rw [run, exec_nil, (resetFor_of_ne hsame).2]
      exact slot_blank _ i
  · have h := collected_of_blank hblank hne hhistory
    rw [resetFor_of_eq (hid.trans h.payloadId.symm)]
    exact h.slots i

theorem emitted_history (hblank : Blank id state)
    (hhistory : OfPayload D id (history.map Prod.snd)) :
    flashblockTx (run (encode D) state history).2 = contiguous (history.map Prod.snd) := by
  by_cases hne : history = []
  · subst hne
    rfl
  · have h := collected_of_blank hblank hne hhistory
    rw [h.emitted]
    apply filledPrefix_congr
    intro i
    rw [h.slots, slot_range]
    exact fun payload hpayload => (hhistory payload hpayload).2.index

theorem passedOn_new (hblank : Blank id state)
    (hhistory : OfPayload D id (history.map Prod.snd)) {payload : FlashblocksPayload}
    (hid : payload.payloadId = id) (hlimits : WithinLimits (encode D) payload)
    (hnew : ∀ other ∈ history.map Prod.snd, other.index ≠ payload.index) (now : Int) :
    passedOn D now (run (encode D) state history).1 payload = [payload] := by
  have hempty : slot ((run (encode D) state history).1.resetFor payload).flashblocks
      payload.index.toNat = none := by
    rw [slot_history hblank hhistory hid]
    cases hfirst : firstDelivered (history.map Prod.snd) payload.index.toNat with
    | none => rfl
    | some other =>
        obtain ⟨hmem, hindex⟩ := firstDelivered_index hfirst
        exact (hnew other hmem (UInt64.toNat_inj.mp hindex)).elim
  unfold passedOn
  rcases publish_cases (encode D) now (run (encode D) state history).1 payload with
    ⟨hlt, _⟩ | ⟨_, hfull, _⟩ | ⟨_, _, hframe, _⟩ | ⟨_, _, _, heq⟩
  · exact absurd hlimits.index (by omega)
  · rw [hempty] at hfull
    cases hfull
  · exact absurd hlimits.frame (by omega)
  · simp [heq]

theorem passedOn_taken (hblank : Blank id state)
    (hhistory : OfPayload D id (history.map Prod.snd)) {payload other : FlashblocksPayload}
    (hid : payload.payloadId = id) (hother : other ∈ history.map Prod.snd)
    (hindex : other.index.toNat = payload.index.toNat) (now : Int) :
    passedOn D now (run (encode D) state history).1 payload = [] := by
  have hfull : (slot ((run (encode D) state history).1.resetFor payload).flashblocks
      payload.index.toNat).isSome := by
    rw [slot_history hblank hhistory hid]
    exact firstDelivered_isSome.mpr ⟨other, hother, hindex⟩
  unfold passedOn
  rcases publish_cases (encode D) now (run (encode D) state history).1 payload with
    ⟨_, heq⟩ | ⟨_, _, heq⟩ | ⟨_, hempty, _⟩ | ⟨_, hempty, _⟩
  · simp [heq]
  · simp [heq]
  · simp [hempty] at hfull
  · simp [hempty] at hfull

variable {ι : Type} {linked : ι → ι → Bool} {calls : List (ι × FlashblocksPayload)}
variable {histories : ι → List (Int × FlashblocksPayload)} {start mesh : Mesh ι}
variable {sent : ι → List Sent}

/-- The channels as a flood: a node knows what it has been handed. -/
def flood (calls : List (ι × FlashblocksPayload))
    (histories : ι → List (Int × FlashblocksPayload)) (mesh : Mesh ι) :
    Flood ι FlashblocksPayload where
  origin n := {payload | (n, payload) ∈ calls}
  knows n := {payload | payload ∈ (histories n).map Prod.snd}
  underway n m := {payload | payload ∈ mesh.underway n m}

/-- Every node has handled some history of the payload, and a mark says that both
ends of the connection have it. -/
structure Spread (D : Codecs FlashblockMetadata) (linked : ι → ι → Bool) (id : PayloadId)
    (start : Mesh ι) (calls : List (ι × FlashblocksPayload)) (sent : ι → List Sent) (mesh : Mesh ι)
    (histories : ι → List (Int × FlashblocksPayload)) : Prop where
  history : ∀ n, run (encode D) (start.states n) (histories n) = (mesh.states n, sent n)
  flooded : Flooded (fun n m => linked n m) (flood calls histories mesh)
  marked : ∀ n m key, (mesh.connections n m).Marked key → key.1 = id →
    ∃ payload, payloadKey payload = key ∧ payload ∈ (histories n).map Prod.snd ∧
      payload ∈ (histories m).map Prod.snd

theorem mem_calls {node : ι} {payload : FlashblocksPayload}
    (h : payload ∈ (flood calls histories mesh).reached (fun n m => linked n m) node) :
    payload ∈ calls.map Prod.snd := by
  obtain ⟨source, hmem, _⟩ := h
  exact List.mem_map.mpr ⟨(source, payload), hmem, rfl⟩

theorem Spread.handed (h : Spread D linked id start calls sent mesh histories) {node : ι}
    {payload : FlashblocksPayload} (hmem : payload ∈ (histories node).map Prod.snd) :
    payload ∈ calls.map Prod.snd :=
  mem_calls (h.flooded.sourced node hmem)

theorem Spread.sent_known (h : Spread D linked id start calls sent mesh histories) {n m : ι}
    {payload : FlashblocksPayload} (hmem : payload ∈ mesh.underway n m) :
    linked n m ∧ payload ∈ (histories n).map Prod.snd :=
  h.flooded.sent n m payload hmem

theorem Spread.marked_both (h : Spread D linked id start calls sent mesh histories)
    (hpayload : OfPayload D id (calls.map Prod.snd)) (hfamily : Family (calls.map Prod.snd))
    {n m : ι} {payload : FlashblocksPayload} (hmem : payload ∈ calls.map Prod.snd)
    (hmarked : (mesh.connections n m).Marked (payloadKey payload)) :
    payload ∈ (histories n).map Prod.snd ∧ payload ∈ (histories m).map Prod.snd := by
  obtain ⟨other, hkey, hn, hm⟩ := h.marked n m _ hmarked (hpayload payload hmem).1
  have hindex : other.index = payload.index := UInt64.toNat_inj.mp (congrArg Prod.snd hkey)
  rw [← hfamily other (h.handed hn) payload hmem hindex]
  exact ⟨hn, hm⟩

variable [DecidableEq ι]

def hand (histories : ι → List (Int × FlashblocksPayload)) (node : ι) (now : Int)
    (payload : FlashblocksPayload) : ι → List (Int × FlashblocksPayload) :=
  fun n => if n = node then histories n ++ [(now, payload)] else histories n

theorem mem_hand (node n : ι) (now : Int) (payload other : FlashblocksPayload) :
    other ∈ (hand histories node now payload n).map Prod.snd ↔
      n = node ∧ other = payload ∨ other ∈ (histories n).map Prod.snd := by
  unfold hand
  split
  · rename_i hn
    simp [hn, or_comm]
  · rename_i hn
    simp [hn]

/-- Between two meshes a channel has lost at most what its receiver now handles. -/
structure Handling (node : ι) (payload : FlashblocksPayload) (mesh mesh' : Mesh ι) : Prop where
  states : mesh'.states = mesh.states
  less : ∀ n m, ∀ other ∈ mesh'.underway n m, other ∈ mesh.underway n m
  kept : ∀ n m, ∀ other ∈ mesh.underway n m,
    other ∈ mesh'.underway n m ∨ m = node ∧ other = payload

theorem mem_underway_publish (mesh : Mesh ι) (node n m : ι) (now : Int)
    (payload other : FlashblocksPayload) :
    other ∈ (mesh.publish D linked node now payload).underway n m ↔
      other ∈ mesh.underway n m ∨
        (n = node ∧ linked n m) ∧ other ∈ passedOn D now (mesh.states node) payload := by
  unfold Mesh.publish
  dsimp only
  split
  · rename_i hnode
    rw [List.mem_append, and_iff_right hnode, hnode.1]
  · rename_i hnode
    simp [hnode]

theorem history_publish
    (h : ∀ n, run (encode D) (start.states n) (histories n) = (mesh.states n, sent n))
    (node : ι) (now : Int) (payload : FlashblocksPayload) (n : ι) :
    run (encode D) (start.states n) (hand histories node now payload n) =
      ((mesh.publish D linked node now payload).states n, sent n ++
        if n = node then (Publish.publish (encode D) now (mesh.states node) payload).2
        else []) := by
  have hhistory := h n
  unfold hand Mesh.publish
  unfold run at hhistory ⊢
  dsimp only
  split
  · rename_i hn
    rw [exec_concat, hhistory, hn]
    rfl
  · rw [List.append_nil]
    exact hhistory

/-- `publish` on what a node has been handed is a step of the flood: what is passed on
is known to the node, and what is not passed on has been before. -/
theorem flooded_publish {mesh' : Mesh ι} {node : ι} {now : Int} {payload : FlashblocksPayload}
    (hhandling : Handling node payload mesh mesh')
    (hlearned : Flooded (fun n m => linked n m)
      ((flood calls histories mesh).learn (fun n m => linked n m) node payload))
    (hpassed : payload ∈ (histories node).map Prod.snd → ∀ m, linked node m →
      payload ∈ (histories m).map Prod.snd ∨ payload ∈ mesh.underway node m)
    (hnew : payload ∉ (histories node).map Prod.snd →
      passedOn D now (mesh.states node) payload = [payload]) :
    Flooded (fun n m => linked n m) (flood calls (hand histories node now payload)
      (mesh'.publish D linked node now payload)) := by
  have hknows : (flood calls (hand histories node now payload)
      (mesh'.publish D linked node now payload)).knows =
        ((flood calls histories mesh).learn (fun n m => linked n m) node payload).knows := by
    funext n
    ext other
    exact mem_hand node n now payload other
  have hless : ∀ n m, (flood calls (hand histories node now payload)
      (mesh'.publish D linked node now payload)).underway n m ⊆
        ((flood calls histories mesh).learn (fun n m => linked n m) node payload).underway n m := by
    intro n m other hother
    rcases (mem_underway_publish mesh' node n m now payload other).mp hother with hold | ⟨hlink, hmem⟩
    · exact .inr (hhandling.less n m other hold)
    · exact .inl ⟨hlink, ((peerTx_passedOn D now (mesh'.states node) payload).2 other hmem).1⟩
  have hkept : ∀ n m, ((flood calls histories mesh).learn (fun n m => linked n m) node
      payload).underway n m ⊆
        (flood calls (hand histories node now payload)
          (mesh'.publish D linked node now payload)).underway n m ∪
        ((flood calls histories mesh).learn (fun n m => linked n m) node payload).knows m := by
    have hold : ∀ n m, ∀ other ∈ mesh.underway n m,
        other ∈ (flood calls (hand histories node now payload)
          (mesh'.publish D linked node now payload)).underway n m ∪
        ((flood calls histories mesh).learn (fun n m => linked n m) node payload).knows m := by
      intro n m other hother
      rcases hhandling.kept n m other hother with hstill | hgone
      · exact .inl ((mem_underway_publish mesh' node n m now payload other).mpr (.inl hstill))
      · exact .inr (.inl hgone)
    rintro n m other (⟨⟨rfl, hlink⟩, rfl⟩ | hother)
    · by_cases hknown : other ∈ (histories n).map Prod.snd
      · rcases hpassed hknown m hlink with hm | hunderway
        · exact .inr (.inr hm)
        · exact hold n m other hunderway
      · refine .inl ((mem_underway_publish mesh' n n m now other other).mpr (.inr ⟨⟨rfl, hlink⟩, ?_⟩))
        rw [hhandling.states, hnew hknown]
        exact List.mem_singleton.mpr rfl
    · exact hold n m other hother
  have hnext := hlearned.giveUp hless hkept
  rw [← hknows] at hnext
  exact hnext

theorem Spread.publish (h : Spread D linked id start calls sent mesh histories)
    (hblank : ∀ n, Blank id (start.states n)) {calls' : List (ι × FlashblocksPayload)}
    (hmore : ∀ payload ∈ calls.map Prod.snd, payload ∈ calls'.map Prod.snd)
    (hpayload : OfPayload D id (calls'.map Prod.snd)) (hfamily : Family (calls'.map Prod.snd))
    {mesh' : Mesh ι} {node : ι} {payload : FlashblocksPayload}
    (hmem : payload ∈ calls'.map Prod.snd) (hhandling : Handling node payload mesh mesh')
    (hlearned : Flooded (fun n m => linked n m)
      ((flood calls' histories mesh).learn (fun n m => linked n m) node payload))
    (hmarks : ∀ n m key, (mesh'.connections n m).Marked key → (mesh.connections n m).Marked key ∨
      key = payloadKey payload ∧ n = node ∧ payload ∈ (histories m).map Prod.snd) (now : Int) :
    Spread D linked id start calls'
      (fun n => sent n ++
        if n = node then (Publish.publish (encode D) now (mesh.states node) payload).2 else [])
      (mesh'.publish D linked node now payload) (hand histories node now payload) where
  history n := by
    have hhistory := h.history
    rw [← hhandling.states] at hhistory ⊢
    exact history_publish hhistory node now payload n
  flooded := by
    have hgiven : OfPayload D id ((histories node).map Prod.snd) := fun other hother =>
      hpayload other (hmore other (h.handed hother))
    apply flooded_publish hhandling hlearned
    · intro hknown m hlink
      exact h.flooded.passed node m hlink hknown
    · intro hnot
      have hstate : mesh.states node = (run (encode D) (start.states node) (histories node)).1 := by
        rw [h.history]
      rw [hstate]
      obtain ⟨hid, hlimits⟩ := hpayload payload hmem
      apply passedOn_new (hblank node) hgiven hid hlimits
      intro other hother hindex
      rw [hfamily other (hmore other (h.handed hother)) payload hmem hindex] at hother
      exact hnot hother
  marked n m key hmarked hkey := by
    rcases hmarks n m key hmarked with hold | ⟨rfl, rfl, hsender⟩
    · obtain ⟨other, heq, hn, hm⟩ := h.marked n m key hold hkey
      exact ⟨other, heq, (mem_hand ..).mpr (.inr hn), (mem_hand ..).mpr (.inr hm)⟩
    · exact ⟨payload, rfl, (mem_hand ..).mpr (.inl ⟨rfl, rfl⟩), (mem_hand ..).mpr (.inr hsender)⟩

theorem Spread.drop (h : Spread D linked id start calls sent mesh histories) {sender receiver : ι}
    {before after : List FlashblocksPayload} {payload : FlashblocksPayload}
    (hunderway : mesh.underway sender receiver = before ++ payload :: after)
    (hknown : payload ∈ (histories receiver).map Prod.snd) :
    Spread D linked id start calls sent (mesh.setUnderway sender receiver (before ++ after))
      histories where
  history := h.history
  marked := h.marked
  flooded := by
    apply h.flooded.giveUp
    · intro n m other hother
      change other ∈ (mesh.setUnderway sender receiver (before ++ after)).underway n m at hother
      rw [setUnderway_underway] at hother
      split at hother
      · rename_i hpair
        change other ∈ mesh.underway n m
        rw [hpair.1, hpair.2, hunderway]
        simp only [List.mem_append, List.mem_cons] at hother ⊢
        exact hother.imp_right .inr
      · exact hother
    · intro n m other hother
      change other ∈ mesh.underway n m at hother
      by_cases hpair : n = sender ∧ m = receiver
      · rw [hpair.1, hpair.2, hunderway, List.mem_append, List.mem_cons] at hother
        rcases hother with hleft | rfl | hright
        · left
          simp [hpair, hleft]
        · right
          rw [hpair.2]
          exact hknown
        · left
          simp [hpair, hright]
      · left
        simpa [flood, hpair] using hother

theorem Spread.setConnection (h : Spread D linked id start calls sent mesh histories)
    {node peer : ι} {connection : FlashblocksConnection}
    (hmarks : ∀ key, connection.Marked key → (mesh.connections node peer).Marked key) :
    Spread D linked id start calls sent (mesh.setConnection node peer connection) histories where
  history := h.history
  flooded := h.flooded
  marked n m key hmarked := by
    rw [setConnection_connections] at hmarked
    split at hmarked
    · rename_i hpair
      rw [hpair.1, hpair.2]
      exact h.marked node peer key (hmarks key hmarked)
    · exact h.marked n m key hmarked

omit [DecidableEq ι] in
theorem flood_introduce (calls : List (ι × FlashblocksPayload))
    (histories : ι → List (Int × FlashblocksPayload)) (mesh : Mesh ι) (node : ι)
    (payload : FlashblocksPayload) :
    flood (calls ++ [(node, payload)]) histories mesh =
      (flood calls histories mesh).introduce node payload := by
  unfold flood Flood.introduce
  congr 1
  funext n
  ext other
  simp [or_comm]

omit [DecidableEq ι] in
theorem handling_refl (node : ι) (payload : FlashblocksPayload) (mesh : Mesh ι) :
    Handling node payload mesh mesh :=
  ⟨rfl, fun _ _ _ h => h, fun _ _ _ h => .inl h⟩

theorem handling_taken {sender receiver : ι} {payload : FlashblocksPayload}
    {rest : List FlashblocksPayload} (hunderway : mesh.underway sender receiver = payload :: rest)
    (connection : FlashblocksConnection) :
    Handling receiver payload mesh
      ((mesh.setUnderway sender receiver rest).setConnection receiver sender connection) where
  states := rfl
  less n m other hother := by
    rw [setConnection_underway, setUnderway_underway] at hother
    split at hother
    · rename_i hpair
      rw [hpair.1, hpair.2, hunderway]
      exact List.mem_cons_of_mem _ hother
    · exact hother
  kept n m other hother := by
    rw [setConnection_underway, setUnderway_underway]
    split
    · rename_i hpair
      rw [hpair.1, hpair.2, hunderway, List.mem_cons] at hother
      exact hother.symm.imp_right fun heq => ⟨hpair.2, heq⟩
    · exact .inl hother

theorem Spread.published (h : Spread D linked id start calls sent mesh histories)
    (hblank : ∀ n, Blank id (start.states n)) (node : ι) (now : Int) (payload : FlashblocksPayload)
    (hpayload : OfPayload D id ((calls ++ [(node, payload)]).map Prod.snd))
    (hfamily : Family ((calls ++ [(node, payload)]).map Prod.snd)) :
    Spread D linked id start (calls ++ [(node, payload)])
      (fun n => sent n ++
        if n = node then (Publish.publish (encode D) now (mesh.states node) payload).2 else [])
      (mesh.publish D linked node now payload) (hand histories node now payload) := by
  have hlearned := h.flooded.introduce node payload
  rw [← flood_introduce] at hlearned
  refine h.publish hblank ?_ hpayload hfamily ?_ (handling_refl node payload mesh) hlearned
    (fun _ _ _ hmarked => .inl hmarked) now
  · intro other hother
    rw [List.map_append]
    exact List.mem_append_left _ hother
  · simp

section
variable (hpayload : OfPayload D id (calls.map Prod.snd)) (hfamily : Family (calls.map Prod.snd))
include hpayload hfamily

theorem Spread.withheld (h : Spread D linked id start calls sent mesh histories)
    {sender receiver : ι} {before after : List FlashblocksPayload} {payload : FlashblocksPayload}
    (hunderway : mesh.underway sender receiver = before ++ payload :: after)
    (hmarked : (mesh.connections sender receiver).Marked (payloadKey payload)) :
    Spread D linked id start calls sent (mesh.setUnderway sender receiver (before ++ after))
      histories := by
  have hmem : payload ∈ mesh.underway sender receiver := by simp [hunderway]
  have hpublished := h.handed (h.sent_known hmem).2
  exact h.drop hunderway (h.marked_both hpayload hfamily hpublished hmarked).2

theorem Spread.repeated (h : Spread D linked id start calls sent mesh histories)
    {sender receiver : ι} {payload : FlashblocksPayload} {rest : List FlashblocksPayload}
    {connection : FlashblocksConnection} (hunderway : mesh.underway sender receiver = payload :: rest)
    (hstops : ¬(mesh.connections receiver sender).forwards payload)
    (hmarks : ∀ key, connection.Marked key → (mesh.connections receiver sender).Marked key) :
    Spread D linked id start calls sent
      ((mesh.setUnderway sender receiver rest).setConnection receiver sender connection)
      histories := by
  have hmem : payload ∈ mesh.underway sender receiver := by simp [hunderway]
  have hpublished := h.handed (h.sent_known hmem).2
  rw [forwards_iff, not_and, not_not] at hstops
  have hmarked := hstops (hpayload payload hpublished).2.index
  have hknown := (h.marked_both hpayload hfamily hpublished hmarked).1
  have hdropped : Spread D linked id start calls sent (mesh.setUnderway sender receiver ([] ++ rest))
      histories := h.drop hunderway hknown
  exact hdropped.setConnection hmarks

theorem Spread.handled (h : Spread D linked id start calls sent mesh histories)
    (hblank : ∀ n, Blank id (start.states n)) {sender receiver : ι} {payload : FlashblocksPayload}
    {rest : List FlashblocksPayload} {connection : FlashblocksConnection}
    (hunderway : mesh.underway sender receiver = payload :: rest)
    (hmarks : ∀ key, connection.Marked key →
      key = payloadKey payload ∨ (mesh.connections receiver sender).Marked key) (now : Int) :
    Spread D linked id start calls
      (fun n => sent n ++ if n = receiver then
        (Publish.publish (encode D) now (mesh.states receiver) payload).2 else [])
      (((mesh.setUnderway sender receiver rest).setConnection receiver sender connection).publish D
        linked receiver now payload) (hand histories receiver now payload) := by
  have hmem : payload ∈ mesh.underway sender receiver := by simp [hunderway]
  obtain ⟨hlinked, hknown⟩ := h.sent_known hmem
  have hsourced := @reached_pass _ _ (fun n m => linked n m) (flood calls histories mesh) _ _
    hlinked payload (h.flooded.sourced sender hknown)
  have hlearned := h.flooded.learn hsourced
  refine h.publish hblank (fun _ hcall => hcall) hpayload hfamily (h.handed hknown)
    (handling_taken hunderway connection) hlearned ?_ now
  intro n m key hmarked
  rw [setConnection_connections] at hmarked
  split at hmarked
  · rename_i hpair
    rcases hmarks key hmarked with hkey | hold
    · exact .inr ⟨hkey, hpair.1, hpair.2 ▸ hknown⟩
    · rw [hpair.1, hpair.2]
      exact .inl hold
  · exact .inl hmarked

theorem Spread.move (h : Spread D linked id start calls sent mesh histories)
    (hblank : ∀ n, Blank id (start.states n)) {sent' : ι → List Sent} {mesh' : Mesh ι}
    (hmove : Move D linked mesh sent' mesh') :
    ∃ histories', Spread D linked id start calls (fun n => sent n ++ sent' n) mesh'
      histories' := by
  cases hmove with
  | withheld sender receiver before after payload hunderway hmarked =>
      have hnext := h.withheld hpayload hfamily hunderway hmarked
      exact ⟨histories, by simpa using hnext⟩
  | repeated sender receiver payload rest connection hunderway hstops hmarks =>
      have hnext := h.repeated hpayload hfamily hunderway hstops hmarks
      exact ⟨histories, by simpa using hnext⟩
  | handled sender receiver now payload rest connection hunderway hpasses hmarks =>
      exact ⟨_, h.handled hpayload hfamily hblank hunderway hmarks now⟩

end

theorem OfPayload.of_append {left right : List FlashblocksPayload}
    (h : OfPayload D id (left ++ right)) : OfPayload D id left :=
  fun payload hpayload => h payload (List.mem_append_left _ hpayload)

theorem Family.of_append {left right : List FlashblocksPayload} (h : Family (left ++ right)) :
    Family left :=
  fun a ha b hb => h a (List.mem_append_left _ ha) b (List.mem_append_left _ hb)

theorem Spread.turn (h : Spread D linked id start calls sent mesh histories)
    (hblank : ∀ n, Blank id (start.states n)) {more : List (ι × FlashblocksPayload)}
    {sent' : ι → List Sent} {mesh' : Mesh ι} (hturn : Turn D linked mesh more sent' mesh')
    (hpayload : OfPayload D id ((calls ++ more).map Prod.snd))
    (hfamily : Family ((calls ++ more).map Prod.snd)) :
    ∃ histories', Spread D linked id start (calls ++ more) (fun n => sent n ++ sent' n) mesh'
      histories' := by
  cases hturn with
  | idle => exact ⟨histories, by simpa using h⟩
  | published node now payload =>
      exact ⟨_, h.published hblank node now payload hpayload hfamily⟩
  | moved sent' mesh' hmove =>
      rw [List.append_nil] at hpayload hfamily ⊢
      exact h.move hpayload hfamily hblank hmove

/-! Before the payload, and between payloads. -/

structure Untouched (id : PayloadId) (mesh : Mesh ι) : Prop where
  blank : ∀ n, Blank id (mesh.states n)
  underway : ∀ n m, ∀ payload ∈ mesh.underway n m, payload.payloadId ≠ id
  unmarked : ∀ n m key, (mesh.connections n m).Marked key → key.1 ≠ id

omit [DecidableEq ι] in
theorem untouched_start (id : PayloadId) : Untouched id ({} : Mesh ι) where
  blank n _ := ⟨rfl, slot_nil⟩
  underway n m payload hmem := by cases hmem
  unmarked n m key hmarked := by simp [FlashblocksConnection.Marked] at hmarked

theorem Untouched.setUnderway (h : Untouched id mesh) {sender receiver : ι}
    {payloads : List FlashblocksPayload}
    (hsub : ∀ payload ∈ payloads, payload ∈ mesh.underway sender receiver) :
    Untouched id (mesh.setUnderway sender receiver payloads) where
  blank := h.blank
  unmarked := h.unmarked
  underway n m payload hmem := by
    rw [setUnderway_underway] at hmem
    split at hmem
    · exact h.underway sender receiver payload (hsub payload hmem)
    · exact h.underway n m payload hmem

theorem Untouched.setConnection (h : Untouched id mesh) {node peer : ι}
    {connection : FlashblocksConnection} (hmarks : ∀ key, connection.Marked key → key.1 ≠ id) :
    Untouched id (mesh.setConnection node peer connection) where
  blank := h.blank
  underway := h.underway
  unmarked n m key hmarked := by
    rw [setConnection_connections] at hmarked
    split at hmarked
    · exact hmarks key hmarked
    · exact h.unmarked n m key hmarked

theorem Untouched.publish (h : Untouched id mesh) {payload : FlashblocksPayload}
    (hother : payload.payloadId ≠ id) (node : ι) (now : Int) :
    Untouched id (mesh.publish D linked node now payload) where
  unmarked := h.unmarked
  blank n := by
    unfold Mesh.publish
    dsimp only
    split
    · intro hid
      rw [publish_payloadId] at hid
      exact (hother hid).elim
    · exact h.blank n
  underway n m other hmem := by
    rcases (mem_underway_publish mesh node n m now payload other).mp hmem with hold | ⟨_, hnew⟩
    · exact h.underway n m other hold
    · rw [((peerTx_passedOn D now (mesh.states node) payload).2 other hnew).1]
      exact hother

theorem Untouched.move (h : Untouched id mesh) {sent' : ι → List Sent} {mesh' : Mesh ι}
    (hmove : Move D linked mesh sent' mesh') : Untouched id mesh' := by
  cases hmove with
  | withheld sender receiver before after payload hunderway =>
      apply h.setUnderway
      intro other hmem
      rw [hunderway]
      simp only [List.mem_append, List.mem_cons] at hmem ⊢
      exact hmem.imp_right .inr
  | repeated sender receiver payload rest connection hunderway hstops hmarks =>
      have hrest := h.setUnderway fun other hmem => hunderway ▸ List.mem_cons_of_mem payload hmem
      exact hrest.setConnection fun key hmarked => h.unmarked _ _ key (hmarks key hmarked)
  | handled sender receiver now payload rest connection hunderway hpasses hmarks =>
      have hpayload := h.underway sender receiver payload (by simp [hunderway])
      have hrest := h.setUnderway fun other hmem => hunderway ▸ List.mem_cons_of_mem payload hmem
      refine (hrest.setConnection ?_).publish hpayload receiver now
      intro key hmarked
      rcases hmarks key hmarked with rfl | hold
      · exact hpayload
      · exact h.unmarked _ _ key hold

theorem Untouched.turn (h : Untouched id mesh) {more : List (ι × FlashblocksPayload)}
    {sent' : ι → List Sent} {mesh' : Mesh ι} (hturn : Turn D linked mesh more sent' mesh')
    (hother : ∀ call ∈ more, call.2.payloadId ≠ id) : Untouched id mesh' := by
  cases hturn with
  | idle => exact h
  | published node now payload => exact h.publish (hother (node, payload) (by simp)) node now
  | moved sent' mesh' hmove => exact h.move hmove

omit [DecidableEq ι] in
theorem Untouched.spread (h : Untouched id mesh) (hrest : ∀ n m, mesh.underway n m = []) :
    Spread D linked id mesh [] (fun _ => []) mesh (fun _ => []) where
  history _ := rfl
  marked n m key hmarked hkey := (h.unmarked n m key hmarked hkey).elim
  flooded := by
    have hempty : flood [] (fun _ => []) mesh = ⟨fun _ => ∅, fun _ => ∅, fun _ _ => ∅⟩ := by
      unfold flood
      simp [hrest]
    rw [hempty]
    exact flooded_start

end WorldChain.P2p.Spreading
