import WorldChain.P2p.Publish

/-! What the ordering state keeps over any run of `publish`, and what a run
within one payload emits. -/
namespace WorldChain.P2p.OrderedState
open Library Library.ReorderBuffer Library.Runs Wire.Primitives Publish

/-- The lock serialises the calls, so a run is a list of clock readings and
flashblocks. -/
def publishStep (encode : FlashblocksPayload → Bytes) (state : FlashblocksP2PState)
    (call : Int × FlashblocksPayload) : FlashblocksP2PState × List Sent :=
  publish encode call.1 state call.2

abbrev run (encode : FlashblocksPayload → Bytes) (state : FlashblocksP2PState)
    (calls : List (Int × FlashblocksPayload)) : FlashblocksP2PState × List Sent :=
  exec (publishStep encode) state calls

/-- Slots hold flashblocks of the current payload under their own index, and
every slot before the cursor is filled. -/
structure Ordered (state : FlashblocksP2PState) : Prop where
  slots : ∀ i payload, slot state.flashblocks i = some payload →
    payload.index.toNat = i ∧ payload.payloadId = state.payloadId
  cursor : state.flashblockIndex ≤ (filledPrefix state.flashblocks).length

theorem ordered_default : Ordered {} where
  slots := by simp
  cursor := Nat.le_refl _

theorem Ordered.resetFor {state : FlashblocksP2PState} (h : Ordered state)
    (payload : FlashblocksPayload) : Ordered (state.resetFor payload) := by
  by_cases hid : payload.payloadId = state.payloadId
  · rwa [resetFor_of_eq hid]
  · obtain ⟨hcursor, hslots⟩ := resetFor_of_ne hid
    refine ⟨?_, by omega⟩
    intro i other hslot
    simp [hslots] at hslot

theorem Ordered.resizeFor {state : FlashblocksP2PState} (h : Ordered state) (index : Nat) :
    Ordered (state.resizeFor index) where
  slots := by simpa using h.slots
  cursor := by
    rw [filledPrefix_congr (slot_resizeFor state index)]
    exact h.cursor

theorem filledPrefix_cached {state : FlashblocksP2PState} {payload : FlashblocksPayload}
    (hempty : slot (state.resetFor payload).flashblocks payload.index.toNat = none) :
    filledPrefix (state.resetFor payload).flashblocks <+:
      filledPrefix (state.cached payload).flashblocks := by
  apply filledPrefix_prefix
  intro i other hslot
  have hne : i ≠ payload.index.toNat := by
    rintro rfl
    rw [hempty] at hslot
    cases hslot
  rw [slot_cached, if_neg hne, hslot]

theorem Ordered.cached {state : FlashblocksP2PState} (h : Ordered state)
    (payload : FlashblocksPayload)
    (hempty : slot (state.resetFor payload).flashblocks payload.index.toNat = none) :
    Ordered (state.cached payload) := by
  have hreset := h.resetFor payload
  constructor
  · intro i other hslot
    rw [slot_cached] at hslot
    split at hslot
    · cases hslot
      rename_i hi
      exact ⟨hi.symm, (cached_payloadId state payload).symm⟩
    · simpa using hreset.slots i other hslot
  · exact Nat.le_trans hreset.cursor (filledPrefix_cached hempty).length_le

theorem Ordered.ready {state : FlashblocksP2PState} (h : Ordered state) :
    state.ready = (filledPrefix state.flashblocks).drop state.flashblockIndex :=
  filledPrefix_drop h.cursor

theorem Ordered.advance {state : FlashblocksP2PState} (h : Ordered state) (now : Int) :
    Ordered (state.advance now state.ready.length) where
  slots := h.slots
  cursor := by
    have hcursor := h.cursor
    simp only [advance_flashblockIndex, advance_flashblocks, h.ready, List.length_drop]
    omega

theorem Ordered.publish {state : FlashblocksP2PState} (h : Ordered state)
    (encode : FlashblocksPayload → Bytes) (now : Int) (payload : FlashblocksPayload) :
    Ordered (publish encode now state payload).1 := by
  rcases publish_cases encode now state payload with
    ⟨_, heq⟩ | ⟨_, _, heq⟩ | ⟨_, hempty, _, heq⟩ | ⟨_, hempty, _, heq⟩
  · rw [heq]
    exact h.resetFor payload
  · rw [heq]
    exact (h.resetFor payload).resizeFor _
  · rw [heq]
    exact h.cached payload hempty
  · rw [heq]
    exact (h.cached payload hempty).advance now

theorem ordered_of_reachable {encode : FlashblocksPayload → Bytes} {state : FlashblocksP2PState}
    (h : Reachable (publishStep encode) {} state) : Ordered state :=
  reachable_invariant ordered_default (fun _ call hs => hs.publish encode call.1 call.2) h

theorem Ordered.ready_keys {state : FlashblocksP2PState} (h : Ordered state) :
    state.ready.map payloadKey =
      (List.range' state.flashblockIndex state.ready.length).map (state.payloadId, ·) := by
  apply List.ext_getElem (by simp)
  intro j hj _
  simp only [List.length_map] at hj
  have hlt : state.flashblockIndex + j < (filledPrefix state.flashblocks).length := by
    rw [h.ready, List.length_drop] at hj
    omega
  have hslot : slot state.flashblocks (state.flashblockIndex + j) = some state.ready[j] := by
    rw [slot_of_lt_filledPrefix hlt]
    simp only [h.ready, List.getElem_drop, List.getElem?_eq_getElem hlt]
  obtain ⟨hindex, hid⟩ := h.slots _ _ hslot
  simp [payloadKey, hindex, hid]

/-- The flashblocks one call emits: consecutive indices from the cursor of the
state that the flashblock was cached in. -/
theorem publish_emitted_keys {state : FlashblocksP2PState} (h : Ordered state)
    (encode : FlashblocksPayload → Bytes) (now : Int) (payload : FlashblocksPayload) :
    ∃ n, (flashblockTx (publish encode now state payload).2).map payloadKey =
        (List.range' (state.resetFor payload).flashblockIndex n).map (payload.payloadId, ·) ∧
      (publish encode now state payload).1.flashblockIndex =
        (state.resetFor payload).flashblockIndex + n := by
  rcases publish_cases encode now state payload with
    ⟨_, heq⟩ | ⟨_, _, heq⟩ | ⟨_, _, _, heq⟩ | ⟨_, hempty, _, heq⟩
  · exact ⟨0, by simp [heq]⟩
  · exact ⟨0, by simp [heq]⟩
  · exact ⟨0, by simp [heq]⟩
  · refine ⟨(state.cached payload).ready.length, ?_, by simp [heq]⟩
    have hkeys := (h.cached payload hempty).ready_keys
    simpa [heq] using hkeys

def Holds (state : FlashblocksP2PState) (payload : FlashblocksPayload) : Prop :=
  ∃ i, slot state.flashblocks i = some payload

theorem holds_resetFor {state : FlashblocksP2PState} {payload other : FlashblocksPayload}
    (h : Holds (state.resetFor payload) other) : Holds state other := by
  by_cases hid : payload.payloadId = state.payloadId
  · rwa [resetFor_of_eq hid] at h
  · obtain ⟨i, hslot⟩ := h
    rw [(resetFor_of_ne hid).2, slot_blank] at hslot
    cases hslot

theorem holds_cached {state : FlashblocksP2PState} {payload other : FlashblocksPayload}
    (h : Holds (state.cached payload) other) : other = payload ∨ Holds state other := by
  obtain ⟨i, hslot⟩ := h
  rw [slot_cached] at hslot
  split at hslot
  · exact .inl (Option.some.inj hslot).symm
  · exact .inr (holds_resetFor ⟨i, hslot⟩)

theorem holds_of_ready {state : FlashblocksP2PState} {payload : FlashblocksPayload}
    (h : payload ∈ state.ready) : Holds state payload := by
  obtain ⟨i, hslot⟩ := slot_mem_filledPrefix h
  refine ⟨state.flashblockIndex + i, ?_⟩
  rwa [slot, List.getElem?_drop] at hslot

theorem publish_from {encode : FlashblocksPayload → Bytes} (now : Int)
    (state : FlashblocksP2PState) (payload other : FlashblocksPayload)
    (h : Holds (publish encode now state payload).1 other ∨
      other ∈ flashblockTx (publish encode now state payload).2) :
    other = payload ∨ Holds state other := by
  rcases publish_cases encode now state payload with
    ⟨_, heq⟩ | ⟨_, _, heq⟩ | ⟨_, _, _, heq⟩ | ⟨_, _, _, heq⟩
  all_goals
    rw [heq] at h
  · exact .inr (holds_resetFor (by simpa using h))
  · exact .inr (holds_resetFor (by simpa [Holds] using h))
  · exact holds_cached (by simpa using h)
  · rcases h with hheld | hemitted
    · exact holds_cached hheld
    · exact holds_cached (holds_of_ready (by simpa using hemitted))

theorem run_from {encode : FlashblocksPayload → Bytes} (state : FlashblocksP2PState)
    (calls : List (Int × FlashblocksPayload)) (other : FlashblocksPayload)
    (h : other ∈ flashblockTx (run encode state calls).2) :
    Holds state other ∨ ∃ call ∈ calls, call.2 = other := by
  induction calls generalizing state with
  | nil => cases h
  | cons call calls ih =>
      rw [run, exec_cons, flashblockTx_append, List.mem_append] at h
      have hcall : other = call.2 ∨ Holds state other ∨ ∃ later ∈ calls, later.2 = other := by
        rcases h with hnow | hlater
        · exact (publish_from call.1 state call.2 other (.inr hnow)).imp_right .inl
        · rcases ih _ hlater with hheld | hnew
          · exact (publish_from call.1 state call.2 other (.inl hheld)).imp_right .inl
          · exact .inr (.inr hnew)
      rcases hcall with rfl | hheld | ⟨later, hmem, heq⟩
      · exact .inr ⟨call, List.mem_cons_self, rfl⟩
      · exact .inl hheld
      · exact .inr ⟨later, List.mem_cons_of_mem _ hmem, heq⟩

end WorldChain.P2p.OrderedState
