import WorldChain.P2p.OrderedState

/-! What is left of a flashblock that `publish` does not send to the peers. -/
namespace WorldChain.P2p.Rejected
open Library Library.ReorderBuffer Library.Runs Wire.Primitives Publish OrderedState

variable (encode : FlashblocksPayload → Bytes)

def NotSent (now : Int) (state : FlashblocksP2PState) (payload : FlashblocksPayload) : Prop :=
  peerTx (publish encode now state payload).2 = []

/-- A later call may still emit an equal flashblock: one that was cached before,
or one that is handed to `publish` once more. -/
structure LeavesAsWas (now : Int) (state : FlashblocksP2PState) (payload : FlashblocksPayload) :
    Prop where
  payloadId : (publish encode now state payload).1.payloadId = state.payloadId
  flashblockIndex : (publish encode now state payload).1.flashblockIndex = state.flashblockIndex
  flashblocks : (publish encode now state payload).1.flashblocks = state.flashblocks
  silent : flashblockTx (publish encode now state payload).2 = []
  later : ∀ calls, payload ∈ flashblockTx (run encode (publish encode now state payload).1 calls).2 →
    slot state.flashblocks payload.index.toNat = some payload ∨ ∃ call ∈ calls, call.2 = payload

variable {encode}

theorem leavesAsWas_of_eq {now : Int} {state : FlashblocksP2PState} {payload : FlashblocksPayload}
    (hordered : Ordered state) (h : publish encode now state payload = (state, [])) :
    LeavesAsWas encode now state payload := by
  refine ⟨by rw [h], by rw [h], by rw [h], by rw [h]; rfl, ?_⟩
  intro calls hemitted
  rw [h] at hemitted
  rcases run_from state calls payload hemitted with ⟨i, hslot⟩ | hlater
  · rw [(hordered.slots i payload hslot).1]
    exact .inl hslot
  · exact .inr hlater

theorem resizeFor_of_filled {state : FlashblocksP2PState} {index : Nat}
    (h : (slot state.flashblocks index).isSome) : state.resizeFor index = state := by
  have hlength : index < state.flashblocks.length := by
    by_contra hpast
    rw [slot_of_length_le (by omega)] at h
    cases h
  have hsame : resize state.flashblocks (index + 1) = state.flashblocks :=
    eq_of_slot_eq (by rw [length_resize]; omega) (slot_resize _ _)
  rw [FlashblocksP2PState.resizeFor, hsame]

/-- Exactly when a rejected flashblock leaves the state as it was: when it is of
the current payload and rejected before it is cached. -/
theorem leaves_as_was_iff (encode : FlashblocksPayload → Bytes) (now : Int)
    (state : FlashblocksP2PState) (payload : FlashblocksPayload)
    (hreach : Reachable (publishStep encode) {} state) (hrejected : NotSent encode now state payload) :
    LeavesAsWas encode now state payload ↔ payload.payloadId = state.payloadId ∧
      (maxFlashblockIndex < payload.index.toNat ∨
        (slot state.flashblocks payload.index.toNat).isSome) := by
  have hordered := ordered_of_reachable hreach
  constructor
  · intro h
    have hid : payload.payloadId = state.payloadId := by
      rw [← h.payloadId, publish_payloadId]
    refine ⟨hid, ?_⟩
    have hflashblocks := h.flashblocks
    rcases publish_cases encode now state payload with
      ⟨hindex, _⟩ | ⟨_, hfilled, _⟩ | ⟨_, _, _, heq⟩ | ⟨_, _, _, heq⟩
    · exact .inl hindex
    · rw [resetFor_of_eq hid] at hfilled
      exact .inr hfilled
    · rw [heq] at hflashblocks
      rw [← hflashblocks, slot_cached, if_pos rfl]
      exact .inr rfl
    · rw [NotSent, heq] at hrejected
      cases hrejected
  · rintro ⟨hid, hearly⟩
    have hsame := resetFor_of_eq hid
    apply leavesAsWas_of_eq hordered
    rcases publish_cases encode now state payload with
      ⟨_, heq⟩ | ⟨_, hfilled, heq⟩ | ⟨hindex, hempty, _, _⟩ | ⟨_, _, _, heq⟩
    · rw [heq, hsame]
    · rw [hsame] at hfilled
      rw [heq, hsame, resizeFor_of_filled hfilled]
    · rw [hsame] at hempty
      rw [hempty] at hearly
      rcases hearly with hout | hfilled
      · omega
      · cases hfilled
    · rw [NotSent, heq] at hrejected
      cases hrejected

theorem leaves_as_was_iff_cached :
    LeavesAsWas (fun _ => [0]) 21 (publish (fun _ => [0]) 20 {} (.bare 1 0)).1 (.bare 1 0) ↔
      (FlashblocksPayload.bare 1 0).payloadId =
          (publish (fun _ => [0]) 20 {} (.bare 1 0)).1.payloadId ∧
        (maxFlashblockIndex < (FlashblocksPayload.bare 1 0).index.toNat ∨
          (slot (publish (fun _ => [0]) 20 {} (.bare 1 0)).1.flashblocks
            (FlashblocksPayload.bare 1 0).index.toNat).isSome) :=
  leaves_as_was_iff _ 21 _ (.bare 1 0) ⟨[(20, .bare 1 0)], rfl⟩ rfl

/-- Flashblock 101 of payload 2 is rejected, and payload 1 is forgotten. -/
theorem rejected_resets : ¬∀ now state payload,
    Reachable (publishStep fun _ => [0]) {} state → NotSent (fun _ => [0]) now state payload →
      LeavesAsWas (fun _ => [0]) now state payload := by
  intro hall
  have h := hall 21 (publish (fun _ => [0]) 20 {} (.bare 1 0)).1 (.bare 2 101)
    ⟨[(20, .bare 1 0)], rfl⟩ rfl
  exact absurd h.payloadId (by decide)

end WorldChain.P2p.Rejected
