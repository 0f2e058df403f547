import Mathlib.Data.List.Nodup
import WorldChain.P2p.OrderedState

/-! Deliveries of one payload: whatever their order and however often they are
repeated, what is emitted and what is kept depend only on which flashblocks
were delivered. -/
namespace WorldChain.P2p.WithinPayload
open Library Library.ReorderBuffer Library.Runs Wire.Primitives Publish OrderedState

structure WithinLimits (encode : FlashblocksPayload → Bytes) (payload : FlashblocksPayload) :
    Prop where
  index : payload.index.toNat ≤ maxFlashblockIndex
  frame : (encode payload).length ≤ maxFrame

/-- The first delivered flashblock with this index, the one the buffer keeps. -/
def firstDelivered (payloads : List FlashblocksPayload) (i : Nat) : Option FlashblocksPayload :=
  payloads.find? fun payload => payload.index.toNat = i

def bufferLength (start : Nat) (payloads : List FlashblocksPayload) : Nat :=
  (payloads.map fun payload => payload.index.toNat + 1).foldr max start

/-- State and outputs after delivering these flashblocks of one payload to a
state that held nothing of it and had `start` slots. -/
structure Collected (encode : FlashblocksPayload → Bytes) (id : PayloadId) (start : Nat)
    (payloads : List FlashblocksPayload) (r : FlashblocksP2PState × List Sent) : Prop where
  payloadId : r.1.payloadId = id
  slots : ∀ i, slot r.1.flashblocks i = firstDelivered payloads i
  length : r.1.flashblocks.length = bufferLength start payloads
  cursor : r.1.flashblockIndex = (filledPrefix r.1.flashblocks).length
  emitted : flashblockTx r.2 = filledPrefix r.1.flashblocks
  gossiped : ((peerTx r.2).map PeerMsg.key).Nodup
  gossip : ∀ msg, msg ∈ peerTx r.2 ↔ ∃ i payload, firstDelivered payloads i = some payload ∧
    msg = .flashblocksPayloadV1 payload.payloadId i (encode payload)

theorem firstDelivered_concat (payloads : List FlashblocksPayload)
    (payload : FlashblocksPayload) (i : Nat) :
    firstDelivered (payloads ++ [payload]) i =
      (firstDelivered payloads i).or (if i = payload.index.toNat then some payload else none) := by
  unfold firstDelivered
  rw [List.find?_append]
  by_cases hi : i = payload.index.toNat
  · simp [hi]
  · simp [hi, Ne.symm hi]

theorem firstDelivered_concat_new {payloads : List FlashblocksPayload}
    {payload : FlashblocksPayload} (hnew : firstDelivered payloads payload.index.toNat = none)
    {i : Nat} {other : FlashblocksPayload} :
    firstDelivered (payloads ++ [payload]) i = some other ↔
      firstDelivered payloads i = some other ∨ i = payload.index.toNat ∧ payload = other := by
  rw [firstDelivered_concat]
  by_cases hi : i = payload.index.toNat
  · simp [hi, hnew]
  · simp [hi]

theorem firstDelivered_index {payloads : List FlashblocksPayload} {i : Nat}
    {payload : FlashblocksPayload} (h : firstDelivered payloads i = some payload) :
    payload ∈ payloads ∧ payload.index.toNat = i :=
  ⟨List.mem_of_find?_eq_some h, by simpa using List.find?_some h⟩

theorem firstDelivered_isSome {payloads : List FlashblocksPayload} {i : Nat} :
    (firstDelivered payloads i).isSome ↔ ∃ payload ∈ payloads, payload.index.toNat = i := by
  simp [firstDelivered]

theorem bufferLength_concat (start : Nat) (payloads : List FlashblocksPayload)
    (payload : FlashblocksPayload) :
    bufferLength start (payloads ++ [payload]) =
      max (bufferLength start payloads) (payload.index.toNat + 1) := by
  unfold bufferLength
  induction payloads with
  | nil => simp [Nat.max_comm]
  | cons head rest ih =>
      simp only [List.cons_append, List.map_cons, List.foldr_cons, ih]
      omega

variable {encode : FlashblocksPayload → Bytes} {id : PayloadId} {start : Nat}
variable {payloads : List FlashblocksPayload} {r : FlashblocksP2PState × List Sent}

theorem Collected.repeated (h : Collected encode id start payloads r)
    {payload : FlashblocksPayload} (hid : payload.payloadId = id)
    (hlimits : WithinLimits encode payload)
    (hseen : (firstDelivered payloads payload.index.toNat).isSome) (now : Int) :
    Collected encode id start (payloads ++ [payload])
      ((publish encode now r.1 payload).1, r.2 ++ (publish encode now r.1 payload).2) := by
  have hreset : r.1.resetFor payload = r.1 := resetFor_of_eq (hid.trans h.payloadId.symm)
  have hfull : (slot r.1.flashblocks payload.index.toNat).isSome := by
    rw [h.slots]
    exact hseen
  have hpublish : publish encode now r.1 payload = (r.1.resizeFor payload.index.toNat, []) := by
    rcases publish_cases encode now r.1 payload with
      ⟨hlt, _⟩ | ⟨_, _, heq⟩ | ⟨_, hempty, _⟩ | ⟨_, hempty, _⟩
    · exact absurd hlimits.index (by omega)
    · rw [heq, hreset]
    · rw [hreset] at hempty
      simp [hempty] at hfull
    · rw [hreset] at hempty
      simp [hempty] at hfull
  have hfirst : ∀ i, firstDelivered (payloads ++ [payload]) i = firstDelivered payloads i := by
    intro i
    rw [firstDelivered_concat]
    by_cases hi : i = payload.index.toNat
    · obtain ⟨other, hother⟩ := Option.isSome_iff_exists.mp hseen
      simp [hi, hother]
    · simp [hi]
  rw [hpublish]
  refine ⟨h.payloadId, ?_, ?_, ?_, ?_, by simpa using h.gossiped, ?_⟩
  · intro i
    rw [hfirst, slot_resizeFor, h.slots]
  · rw [bufferLength_concat, ← h.length]
    exact length_resize _ _
  · rw [filledPrefix_congr (slot_resizeFor r.1 _)]
    exact h.cursor
  · rw [filledPrefix_congr (slot_resizeFor r.1 _)]
    simpa using h.emitted
  · intro msg
    simp only [hfirst, List.append_nil]
    exact h.gossip msg

theorem Collected.fresh (h : Collected encode id start payloads r)
    {payload : FlashblocksPayload} (hid : payload.payloadId = id)
    (hlimits : WithinLimits encode payload)
    (hnew : firstDelivered payloads payload.index.toNat = none) (now : Int) :
    Collected encode id start (payloads ++ [payload])
      ((publish encode now r.1 payload).1, r.2 ++ (publish encode now r.1 payload).2) := by
  have hreset : r.1.resetFor payload = r.1 := resetFor_of_eq (hid.trans h.payloadId.symm)
  have hslots : ∀ i, slot (r.1.cached payload).flashblocks i =
      firstDelivered (payloads ++ [payload]) i := by
    intro i
    rw [slot_cached, hreset, h.slots, firstDelivered_concat]
    by_cases hi : i = payload.index.toNat
    · simp [hi, hnew]
    · simp [hi]
  have hempty : slot (r.1.resetFor payload).flashblocks payload.index.toNat = none := by
    rw [hreset, h.slots, hnew]
  have hprefix := filledPrefix_cached hempty
  rw [hreset] at hprefix
  have hready : (r.1.cached payload).ready =
      (filledPrefix (r.1.cached payload).flashblocks).drop r.1.flashblockIndex := by
    have hcursor : (r.1.cached payload).flashblockIndex = r.1.flashblockIndex := by
      rw [cached_flashblockIndex, hreset]
    rw [← hcursor]
    apply filledPrefix_drop
    rw [hcursor, h.cursor]
    exact hprefix.length_le
  have hpublish := publish_cases encode now r.1 payload
  rcases hpublish with ⟨hlt, _⟩ | ⟨_, hfull, _⟩ | ⟨_, _, hframe, _⟩ | ⟨_, _, _, heq⟩
  · exact absurd hlimits.index (by omega)
  · rw [hempty] at hfull
    cases hfull
  · exact absurd hlimits.frame (by omega)
  rw [heq]
  refine ⟨by simpa using hid, hslots, ?_, ?_, ?_, ?_, ?_⟩
  · rw [bufferLength_concat, ← h.length]
    simp [FlashblocksP2PState.cached, FlashblocksP2PState.cache, FlashblocksP2PState.resizeFor,
      hreset]
  · have hlength := hprefix.length_le
    rw [← h.cursor] at hlength
    simp only [advance_flashblockIndex, cached_flashblockIndex, hreset, advance_flashblocks,
      hready, List.length_drop]
    omega
  · simp only [flashblockTx_append, flashblockTx_cons_peer, flashblockTx_map_flashblock,
      advance_flashblocks, hready, h.emitted]
    obtain ⟨suffix, hsuffix⟩ := hprefix
    rw [h.cursor, ← hsuffix, List.drop_left]
  · simp only [peerTx_append, peerTx_cons_peer, peerTx_map_flashblock, List.map_append,
      List.map_cons, List.map_nil, PeerMsg.key]
    refine List.nodup_append.mpr ⟨h.gossiped, List.nodup_singleton _, ?_⟩
    intro key hkey key' hkey' heq
    obtain ⟨msg, hmsg, rfl⟩ := List.mem_map.mp hkey
    obtain ⟨i, other, hother, rfl⟩ := (h.gossip msg).mp hmsg
    rw [List.mem_singleton.mp hkey', PeerMsg.key, Prod.mk.injEq] at heq
    rw [heq.2, hnew] at hother
    cases hother
  · intro msg
    simp only [peerTx_append, peerTx_cons_peer, peerTx_map_flashblock, List.mem_append,
      List.mem_singleton, h.gossip, firstDelivered_concat_new hnew]
    constructor
    · rintro (⟨i, other, hother, rfl⟩ | rfl)
      · exact ⟨i, other, .inl hother, rfl⟩
      · exact ⟨_, payload, .inr ⟨rfl, rfl⟩, rfl⟩
    · rintro ⟨i, other, hother | ⟨rfl, rfl⟩, rfl⟩
      · exact .inl ⟨i, other, hother, rfl⟩
      · exact .inr rfl

/-- The run lemma: a run within one payload from a state just reset to it. -/
theorem collected_run {state : FlashblocksP2PState} (hstate : state.payloadId = id)
    (hcursor : state.flashblockIndex = 0) (hempty : ∀ i, slot state.flashblocks i = none)
    (calls : List (Int × FlashblocksPayload))
    (hcalls : ∀ call ∈ calls, call.2.payloadId = id ∧ WithinLimits encode call.2) :
    Collected encode id state.flashblocks.length (calls.map Prod.snd) (run encode state calls) := by
  induction calls using List.reverseRecOn with
  | nil =>
      have hprefix : (filledPrefix state.flashblocks).length = 0 :=
        length_filledPrefix_eq (by simp) (hempty 0)
      refine ⟨hstate, hempty, rfl, by simp [hcursor, hprefix], ?_, by simp, by simp [firstDelivered]⟩
      simpa using (List.eq_nil_of_length_eq_zero hprefix).symm
  | append_singleton calls call ih =>
      have hold := ih fun c hc => hcalls c (List.mem_append_left _ hc)
      obtain ⟨hid, hlimits⟩ := hcalls call (by simp)
      rw [List.map_append, List.map_cons, List.map_nil]
      unfold run
      rw [exec_concat]
      cases hseen : firstDelivered (calls.map Prod.snd) call.2.index.toNat with
      | some other => exact hold.repeated hid hlimits (by simp [hseen]) call.1
      | none => exact hold.fresh hid hlimits hseen call.1

theorem run_resetFor (state : FlashblocksP2PState) (call : Int × FlashblocksPayload)
    (rest : List (Int × FlashblocksPayload)) :
    run encode state (call :: rest) = run encode (state.resetFor call.2) (call :: rest) := by
  simp only [run, exec_cons, publishStep, publish_resetFor]

theorem collected_of_new_payload {state : FlashblocksP2PState} (hstate : state.payloadId ≠ id)
    {calls : List (Int × FlashblocksPayload)} (hne : calls ≠ [])
    (hcalls : ∀ call ∈ calls, call.2.payloadId = id ∧ WithinLimits encode call.2) :
    Collected encode id state.flashblocks.length (calls.map Prod.snd) (run encode state calls) := by
  obtain ⟨call, rest, rfl⟩ := List.exists_cons_of_ne_nil hne
  have hid : call.2.payloadId = id := (hcalls call (by simp)).1
  obtain ⟨hcursor, hslots⟩ := resetFor_of_ne (hid.trans_ne hstate.symm)
  rw [run_resetFor, ← length_resetFor state call.2]
  exact collected_run ((resetFor_payloadId _ _).trans hid) hcursor (by simp [hslots]) _ hcalls

/-- One content per index: then the first delivery is the only one that counts. -/
theorem firstDelivered_eq_some_iff {payloads : List FlashblocksPayload}
    (hfamily : ∀ a ∈ payloads, ∀ b ∈ payloads, a.index = b.index → a = b)
    {i : Nat} {payload : FlashblocksPayload} :
    firstDelivered payloads i = some payload ↔ payload ∈ payloads ∧ payload.index.toNat = i := by
  constructor
  · exact firstDelivered_index
  · rintro ⟨hmem, hi⟩
    obtain ⟨other, hother⟩ := Option.isSome_iff_exists.mp
      (firstDelivered_isSome.mpr ⟨payload, hmem, hi⟩)
    obtain ⟨hmem', hi'⟩ := firstDelivered_index hother
    rw [hother, hfamily other hmem' payload hmem (UInt64.toNat_inj.mp (hi'.trans hi.symm))]

theorem firstDelivered_perm {left right : List FlashblocksPayload} (hperm : left.Perm right)
    (hfamily : ∀ a ∈ left, ∀ b ∈ left, a.index = b.index → a = b) (i : Nat) :
    firstDelivered left i = firstDelivered right i := by
  have hfamily' : ∀ a ∈ right, ∀ b ∈ right, a.index = b.index → a = b := fun a ha b hb =>
    hfamily a (hperm.mem_iff.mpr ha) b (hperm.mem_iff.mpr hb)
  apply Option.ext
  intro payload
  rw [firstDelivered_eq_some_iff hfamily, firstDelivered_eq_some_iff hfamily', hperm.mem_iff]

theorem bufferLength_perm {left right : List FlashblocksPayload} (hperm : left.Perm right)
    (start : Nat) : bufferLength start left = bufferLength start right := by
  unfold bufferLength
  apply (hperm.map _).foldr_eq'
  intro a _ b _ n
  omega

/-! With one content per index. -/

theorem Collected.slot_iff (h : Collected encode id start payloads r)
    (hfamily : ∀ a ∈ payloads, ∀ b ∈ payloads, a.index = b.index → a = b) {i : Nat}
    {payload : FlashblocksPayload} :
    slot r.1.flashblocks i = some payload ↔ payload ∈ payloads ∧ payload.index.toNat = i := by
  rw [h.slots, firstDelivered_eq_some_iff hfamily]

theorem Collected.getElem_filledPrefix (h : Collected encode id start payloads r)
    (hfamily : ∀ a ∈ payloads, ∀ b ∈ payloads, a.index = b.index → a = b) {i : Nat}
    (hi : i < (filledPrefix r.1.flashblocks).length) :
    (filledPrefix r.1.flashblocks)[i] ∈ payloads ∧
      (filledPrefix r.1.flashblocks)[i].index.toNat = i := by
  have hslot := slot_of_lt_filledPrefix hi
  rw [List.getElem?_eq_getElem hi] at hslot
  exact (h.slot_iff hfamily).mp hslot

theorem Collected.gap (h : Collected encode id start payloads r)
    (hfamily : ∀ a ∈ payloads, ∀ b ∈ payloads, a.index = b.index → a = b) :
    ∀ payload ∈ payloads, payload.index.toNat ≠ (filledPrefix r.1.flashblocks).length := by
  intro payload hpayload hindex
  have hgap := slot_filledPrefix_length r.1.flashblocks
  rw [(h.slot_iff hfamily).mpr ⟨hpayload, hindex⟩] at hgap
  cases hgap

theorem Collected.emittedKeys (h : Collected encode id start payloads r)
    (hfamily : ∀ a ∈ payloads, ∀ b ∈ payloads, a.index = b.index → a = b)
    (hid : ∀ payload ∈ payloads, payload.payloadId = id) :
    (flashblockTx r.2).map payloadKey =
      (List.range (filledPrefix r.1.flashblocks).length).map (id, ·) := by
  rw [h.emitted]
  apply List.ext_getElem (by simp)
  intro i hi _
  rw [List.length_map] at hi
  obtain ⟨hmem, hindex⟩ := h.getElem_filledPrefix hfamily hi
  simp [payloadKey, hindex, hid _ hmem]

theorem Collected.gossip_iff (h : Collected encode id start payloads r)
    (hfamily : ∀ a ∈ payloads, ∀ b ∈ payloads, a.index = b.index → a = b)
    (hid : ∀ payload ∈ payloads, payload.payloadId = id) (msg : PeerMsg) :
    msg ∈ peerTx r.2 ↔ ∃ payload ∈ payloads,
      msg = .flashblocksPayloadV1 id payload.index.toNat (encode payload) := by
  rw [h.gossip]
  constructor
  · rintro ⟨i, payload, hfirst, rfl⟩
    obtain ⟨hpayload, rfl⟩ := (firstDelivered_eq_some_iff hfamily).mp hfirst
    exact ⟨payload, hpayload, by rw [hid payload hpayload]⟩
  · rintro ⟨payload, hpayload, rfl⟩
    refine ⟨_, payload, (firstDelivered_eq_some_iff hfamily).mpr ⟨hpayload, rfl⟩, ?_⟩
    rw [hid payload hpayload]

theorem Collected.of_perm (h : Collected encode id start payloads r)
    (hfamily : ∀ a ∈ payloads, ∀ b ∈ payloads, a.index = b.index → a = b)
    {payloads' : List FlashblocksPayload} {r' : FlashblocksP2PState × List Sent}
    (h' : Collected encode id start payloads' r') (hperm : payloads'.Perm payloads) :
    r'.1.payloadId = r.1.payloadId ∧ r'.1.flashblockIndex = r.1.flashblockIndex ∧
      r'.1.flashblocks = r.1.flashblocks := by
  have hslots : ∀ i, slot r'.1.flashblocks i = slot r.1.flashblocks i := by
    intro i
    rw [h'.slots, h.slots, firstDelivered_perm hperm.symm hfamily]
  refine ⟨h'.payloadId.trans h.payloadId.symm, ?_, ?_⟩
  · rw [h'.cursor, h.cursor, filledPrefix_congr hslots]
  · apply eq_of_slot_eq ?_ hslots
    rw [h'.length, h.length, bufferLength_perm hperm]

/-- Order-independent, gap-free emission: what goes out is the longest delivered
prefix in order, each index is gossiped once, and every order of the same
deliveries leaves the same cursor and buffer. -/
theorem emission_within_payload (encode : FlashblocksPayload → Bytes) (id : PayloadId)
    (state : FlashblocksP2PState) (hstate : state.payloadId ≠ id)
    (calls : List (Int × FlashblocksPayload))
    (hcalls : ∀ call ∈ calls, call.2.payloadId = id ∧ WithinLimits encode call.2)
    (hfamily : ∀ a ∈ calls.map Prod.snd, ∀ b ∈ calls.map Prod.snd, a.index = b.index → a = b) :
    (∃ k, (∀ i < k, ∃ call ∈ calls, call.2.index.toNat = i) ∧
        (∀ call ∈ calls, call.2.index.toNat ≠ k) ∧
        (flashblockTx (run encode state calls).2).map payloadKey = (List.range k).map (id, ·)) ∧
      (∀ payload ∈ flashblockTx (run encode state calls).2, payload ∈ calls.map Prod.snd) ∧
      ((peerTx (run encode state calls).2).map PeerMsg.key).Nodup ∧
      (∀ msg, msg ∈ peerTx (run encode state calls).2 ↔ ∃ call ∈ calls,
        msg = .flashblocksPayloadV1 id call.2.index.toNat (encode call.2)) ∧
      ∀ calls' : List (Int × FlashblocksPayload),
        (calls'.map Prod.snd).Perm (calls.map Prod.snd) →
          (run encode state calls').1.payloadId = (run encode state calls).1.payloadId ∧
          (run encode state calls').1.flashblockIndex =
            (run encode state calls).1.flashblockIndex ∧
          (run encode state calls').1.flashblocks = (run encode state calls).1.flashblocks := by
  by_cases hne : calls = []
  · subst hne
    refine ⟨⟨0, by simp⟩, by simp, by simp, by simp, ?_⟩
    intro calls' hperm
    have hnil : calls' = [] := by simpa using hperm.eq_nil
    simp [hnil]
  have h := collected_of_new_payload hstate hne hcalls
  have hid : ∀ payload ∈ calls.map Prod.snd, payload.payloadId = id := by
    intro payload hpayload
    obtain ⟨call, hcall, rfl⟩ := List.mem_map.mp hpayload
    exact (hcalls call hcall).1
  refine ⟨⟨(filledPrefix (run encode state calls).1.flashblocks).length, ?_, ?_,
    h.emittedKeys hfamily hid⟩, ?_, h.gossiped, ?_, ?_⟩
  · intro i hi
    obtain ⟨hmem, hindex⟩ := h.getElem_filledPrefix hfamily hi
    obtain ⟨call, hcall, hsnd⟩ := List.mem_map.mp hmem
    exact ⟨call, hcall, hsnd ▸ hindex⟩
  · intro call hcall
    exact h.gap hfamily call.2 (List.mem_map_of_mem hcall)
  · intro payload hpayload
    rw [h.emitted] at hpayload
    obtain ⟨i, hslot⟩ := slot_mem_filledPrefix hpayload
    exact ((h.slot_iff hfamily).mp hslot).1
  · intro msg
    rw [h.gossip_iff hfamily hid]
    constructor
    · rintro ⟨payload, hpayload, rfl⟩
      obtain ⟨call, hcall, rfl⟩ := List.mem_map.mp hpayload
      exact ⟨call, hcall, rfl⟩
    · rintro ⟨call, hcall, rfl⟩
      exact ⟨call.2, List.mem_map_of_mem hcall, rfl⟩
  · intro calls' hperm
    have hne' : calls' ≠ [] := by
      rintro rfl
      exact hne (by simpa using hperm.symm.eq_nil)
    have hcalls' : ∀ call ∈ calls', call.2.payloadId = id ∧ WithinLimits encode call.2 := by
      intro call hcall
      have hmem := hperm.mem_iff.mp (List.mem_map_of_mem hcall)
      obtain ⟨other, hother, heq⟩ := List.mem_map.mp hmem
      exact heq ▸ hcalls other hother
    exact h.of_perm hfamily (collected_of_new_payload hstate hne' hcalls') hperm

theorem emission_within_payload_reversed :
    ∃ k, (flashblockTx (run (fun _ => [0]) {}
      [(30, .bare 1 2), (31, .bare 1 1), (32, .bare 1 2), (33, .bare 1 0)]).2).map payloadKey =
        (List.range k).map ((1 : PayloadId), ·) := by
  have h := emission_within_payload (fun _ => [0]) 1 {} (by decide)
    [(30, .bare 1 2), (31, .bare 1 1), (32, .bare 1 2), (33, .bare 1 0)]
    (by
      simp only [List.forall_mem_cons]
      exact ⟨⟨rfl, by decide, by decide⟩, ⟨rfl, by decide, by decide⟩,
        ⟨rfl, by decide, by decide⟩, ⟨rfl, by decide, by decide⟩, by simp⟩)
    (by decide)
  obtain ⟨k, _, _, hkeys⟩ := h.1
  exact ⟨k, hkeys⟩

end WorldChain.P2p.WithinPayload
