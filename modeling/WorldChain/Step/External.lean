import WorldChain.Step.Sealed

/-! The transactions that the vanilla builder gets besides those it injects
itself: the payload's history without the sequencer transactions. -/
namespace WorldChain.Step.External
open Wire.Primitives Deps.Revm Deps.Reth Deps.Concrete
open Publish SameHeader Sealed

section Aligned

variable {A H : Type} [DecidableEq H] {key : A → H}

def aligned (key : A → H) (keys : List H) (items : List A) : Nat :=
  (keys.zip (items.map key)).countP fun pair => pair.1 = pair.2

theorem aligned_cons (expected : H) (keys : List H) (item : A) (items : List A) :
    aligned key (expected :: keys) (item :: items) =
      aligned key keys items + if expected = key item then 1 else 0 := by
  unfold aligned
  rw [List.map_cons, List.zip_cons_cons, List.countP_cons]
  simp

theorem aligned_le (keys : List H) (items : List A) : aligned key keys items ≤ items.length := by
  have hcount := (keys.zip (items.map key)).countP_le_length (p := fun pair => pair.1 = pair.2)
  rw [List.length_zip, List.length_map] at hcount
  exact hcount.trans (Nat.min_le_right _ _)

theorem aligned_split (n : Nat) (keys : List H) (items : List A) :
    aligned key keys items =
      aligned key (keys.take n) (items.take n) + aligned key (keys.drop n) (items.drop n) := by
  have hsplit := List.take_append_drop n (keys.zip (items.map key))
  unfold aligned
  rw [← hsplit, List.countP_append, List.zip, List.take_zipWith, List.drop_zipWith,
    ← List.map_take, ← List.map_drop]

theorem aligned_eq_zero {keys : List H} {items : List A} (h : ∀ item ∈ items, key item ∉ keys) :
    aligned key keys items = 0 := by
  apply List.countP_eq_zero.mpr
  rintro ⟨expected, found⟩ hpair
  obtain ⟨hexpected, hfound⟩ := List.of_mem_zip hpair
  obtain ⟨item, hitem, rfl⟩ := List.mem_map.mp hfound
  simp only [decide_eq_true_eq]
  intro heq
  exact h item hitem (heq ▸ hexpected)

theorem aligned_self (items : List A) : aligned key (items.map key) items = items.length := by
  induction items with
  | nil => rfl
  | cons item rest ih => rw [List.map_cons, aligned_cons, ih, if_pos rfl, List.length_cons]

theorem map_eq_of_aligned {keys : List H} {items : List A}
    (h : aligned key keys items = items.length) : items.map key = keys.take items.length := by
  induction items generalizing keys with
  | nil => rfl
  | cons item rest ih =>
      cases keys with
      | nil => cases h
      | cons expected keys =>
          have hle := @aligned_le _ _ _ key keys rest
          rw [aligned_cons, List.length_cons] at h
          split at h
          · rename_i heq
            rw [List.map_cons, ih (Nat.succ.inj h), heq]
            rfl
          · omega

/-- Leaving out as many items at the front as are in their place leaves out the
items of these keys exactly when they stand at the front, each in its place. -/
theorem drop_aligned_eq_filter_iff (keys : List H) (items : List A) :
    items.drop (aligned key keys items) = items.filter (fun item => key item ∉ keys) ↔
      ∃ n, (items.take n).map key = keys.take n ∧ ∀ item ∈ items.drop n, key item ∉ keys := by
  constructor
  · intro h
    have hothers : ∀ item ∈ items.drop (aligned key keys items), key item ∉ keys := by
      intro item hitem
      rw [h] at hitem
      exact of_decide_eq_true (List.mem_filter.mp hitem).2
    have hrest : aligned key (keys.drop (aligned key keys items))
        (items.drop (aligned key keys items)) = 0 :=
      aligned_eq_zero fun item hitem hkey => hothers item hitem (List.mem_of_mem_drop hkey)
    have hfront := @aligned_split _ _ _ key (aligned key keys items) keys items
    rw [hrest, Nat.add_zero] at hfront
    have hlength : (items.take (aligned key keys items)).length = aligned key keys items := by
      rw [List.length_take]
      exact Nat.min_eq_left (aligned_le keys items)
    refine ⟨aligned key keys items, ?_, hothers⟩
    rw [map_eq_of_aligned (hfront.symm.trans hlength.symm), hlength, List.take_take, Nat.min_self]
  · rintro ⟨n, hfront, hothers⟩
    have hrest : aligned key (keys.drop n) (items.drop n) = 0 :=
      aligned_eq_zero fun item hitem hkey => hothers item hitem (List.mem_of_mem_drop hkey)
    have haligned : aligned key keys items = (items.take n).length := by
      rw [aligned_split n, hrest, ← hfront, aligned_self, Nat.add_zero]
    have hdrop : items.drop (items.take n).length = items.drop n := by
      rw [List.length_take]
      by_cases hn : n ≤ items.length
      · rw [Nat.min_eq_left hn]
      · rw [Nat.min_eq_right (by omega), List.drop_length, List.drop_eq_nil_of_le (by omega)]
    have hnone : (items.take n).filter (fun item => key item ∉ keys) = [] := by
      apply List.filter_eq_nil_iff.mpr
      intro item hitem
      have hkey : key item ∈ keys.take n := hfront ▸ List.mem_map_of_mem hitem
      simpa using List.mem_of_mem_take hkey
    have hall : (items.drop n).filter (fun item => key item ∉ keys) = items.drop n := by
      apply List.filter_eq_self.mpr
      intro item hitem
      exact decide_eq_true (hothers item hitem)
    calc items.drop (aligned key keys items)
        = items.drop n := by rw [haligned, hdrop]
      _ = (items.take n).filter (fun item => key item ∉ keys) ++
            (items.drop n).filter (fun item => key item ∉ keys) := by rw [hnone, hall]; rfl
      _ = items.filter (fun item => key item ∉ keys) := by
          rw [← List.filter_append, List.take_append_drop]

end Aligned

variable {Tx : Type}

def sequencerHashes (txHash : Tx → B256) (payload : Payload Tx) : List B256 :=
  payload.block.attributes.transactions.map fun tx => txHash tx.value

def historyTxs (payload : Payload Tx) : List (Recovered Tx) :=
  payload.history.flatMap (·.transactions)

theorem matching_length (txHash : Tx → B256) (transactions : List (Recovered Tx))
    (hashes : List B256) (start : Nat) :
    ((hashes.zipIdx start).filter fun sequencerTx =>
        transactions[sequencerTx.2]?.any fun tx => txHash tx.inner = sequencerTx.1).length =
      aligned (fun tx => txHash tx.inner) hashes (transactions.drop start) := by
  induction hashes generalizing start with
  | nil => rfl
  | cons expected rest ih =>
      rw [List.zipIdx_cons, List.filter_cons]
      by_cases hstart : start < transactions.length
      · rw [List.drop_eq_getElem_cons hstart, aligned_cons, ← ih]
        by_cases heq : txHash transactions[start].inner = expected
        · simp [hstart, heq]
        · simp [hstart, heq, Ne.symm heq]
      · have hnone : transactions.drop start = [] := List.drop_eq_nil_of_le (by omega)
        have hnext : transactions.drop (start + 1) = [] := List.drop_eq_nil_of_le (by omega)
        have hgone := ih (start + 1)
        rw [hnext] at hgone
        rw [hnone]
        simpa [List.getElem?_eq_none (Nat.not_lt.mp hstart), aligned] using hgone

theorem extractExternalTxs_eq (txHash : Tx → B256) (payload : Payload Tx) :
    extractExternalTxs txHash payload = (historyTxs payload).drop
      (aligned (fun tx => txHash tx.inner) (sequencerHashes txHash payload)
        (historyTxs payload)) := by
  have hlength := matching_length txHash (historyTxs payload) (sequencerHashes txHash payload) 0
  rw [List.drop_zero] at hlength
  rw [← hlength]
  rfl

/-- The rest of the history, so that the block of the sequencer transactions and
these has everything once. -/
structure Extracts (txHash : Tx → B256) (payload : Payload Tx) (rest : List (Recovered Tx)) :
    Prop where
  external : rest = (historyTxs payload).filter fun tx =>
    txHash tx.inner ∉ sequencerHashes txHash payload
  once : (sequencerHashes txHash payload).Nodup →
    ((historyTxs payload).map fun tx => txHash tx.inner).Nodup →
      (sequencerHashes txHash payload ++ rest.map fun tx => txHash tx.inner).Nodup
  complete : ∀ tx ∈ historyTxs payload, txHash tx.inner ∈
    sequencerHashes txHash payload ++ rest.map fun tx => txHash tx.inner

theorem extracts_filter (txHash : Tx → B256) (payload : Payload Tx) :
    Extracts txHash payload ((historyTxs payload).filter fun tx =>
      txHash tx.inner ∉ sequencerHashes txHash payload) where
  external := rfl
  once := by
    intro hsequencer hhistory
    apply List.nodup_append'.mpr
    refine ⟨hsequencer, hhistory.sublist (List.filter_sublist.map _), ?_⟩
    intro hash hhash hexternal
    obtain ⟨tx, htx, rfl⟩ := List.mem_map.mp hexternal
    exact of_decide_eq_true (List.mem_filter.mp htx).2 hhash
  complete := by
    intro tx htx
    rw [List.mem_append]
    by_cases hhash : txHash tx.inner ∈ sequencerHashes txHash payload
    · exact .inl hhash
    · exact .inr (List.mem_map.mpr ⟨tx, List.mem_filter.mpr ⟨htx, decide_eq_true hhash⟩, rfl⟩)

/-- Exactly where the history begins with sequencer transactions from the first
on, in their order, and has no other. -/
theorem extractExternalTxs_extracts_iff (txHash : Tx → B256) (payload : Payload Tx) :
    Extracts txHash payload (extractExternalTxs txHash payload) ↔
      ∃ n, ((historyTxs payload).take n).map (fun tx => txHash tx.inner) =
          (sequencerHashes txHash payload).take n ∧
        ∀ tx ∈ (historyTxs payload).drop n, txHash tx.inner ∉ sequencerHashes txHash payload := by
  have hiff := @drop_aligned_eq_filter_iff _ _ _ (fun tx : Recovered Tx => txHash tx.inner)
    (sequencerHashes txHash payload) (historyTxs payload)
  rw [← extractExternalTxs_eq] at hiff
  rw [← hiff]
  constructor
  · exact Extracts.external
  · intro hexternal
    rw [hexternal]
    exact extracts_filter txHash payload

def secondInPlace : Payload SampleTx where
  block := { sampleBlock with attributes := (sampleCtx [{ signer := 1, nonce := 1 },
    { signer := 1, nonce := 2 }]).config.attributes }
  latestBarrier := none
  history := [{
    state := none
    transactions := [⟨{ signer := 2, nonce := 3 }, 2⟩, ⟨{ signer := 1, nonce := 2 }, 1⟩]
    result := none
    prev := none }]
  historyStaging := []
  cumulativeDaFootprint := none
  alloyBal := []

/-- The other transaction is lost and the sequencer's is there twice. -/
theorem secondInPlace_lost : ¬∀ (txHash : SampleTx → B256) payload,
    ((historyTxs payload).map fun tx => txHash tx.inner).Nodup →
      Extracts txHash payload (extractExternalTxs txHash payload) := by
  intro hall
  have hextracts := hall (fun tx => .ofNat 256 tx.nonce.toNat) secondInPlace (by decide)
  exact absurd (hextracts.complete ⟨{ signer := 2, nonce := 3 }, 2⟩ (by decide)) (by decide)

end WorldChain.Step.External
