import WorldChain.Step.Unwind

/-! What `flatten_reverts` computes, and that it can be done piece by piece. -/
namespace WorldChain.Step.Flatten
open Library.Collate Library.Undo Library.Upsert Wire.Primitives Deps.Revm Reverts Unwind

/-- The merge rules, for the reverts of one account from the earliest to the latest. -/
structure MergedBy (reverts : List AccountRevert) (merged : AccountRevert) : Prop where
  previousStatus : reverts.head?.map (·.previousStatus) = some merged.previousStatus
  account : merged.account =
    ((reverts.map (·.account)).find? (· ≠ .doNothing)).getD .doNothing
  wipeStorage : merged.wipeStorage ↔ ∃ revert ∈ reverts, revert.wipeStorage
  storage : ∀ slot, merged.storage.lookup slot =
    reverts.findSome? fun revert => revert.storage.lookup slot

def meaningful (revert : AccountRevert) : Option AccountInfoRevert :=
  if revert.account = .doNothing then none else some revert.account

theorem meaningful_merge (kept new : AccountRevert) :
    meaningful (mergeRevert kept new) = (meaningful kept).or (meaningful new) := by
  unfold meaningful mergeRevert
  by_cases hkept : kept.account = .doNothing
  · by_cases hnew : new.account = .doNothing <;> simp [hkept, hnew]
  · simp [hkept]

theorem account_eq (revert : AccountRevert) :
    revert.account = (meaningful revert).getD .doNothing := by
  unfold meaningful
  split
  · assumption
  · rfl

theorem findSome?_meaningful (reverts : List AccountRevert) :
    reverts.findSome? meaningful = (reverts.map (·.account)).find? (· ≠ .doNothing) := by
  induction reverts with
  | nil => rfl
  | cons revert rest ih =>
      rw [List.findSome?_cons, List.map_cons, List.find?_cons, ih, meaningful]
      by_cases haccount : revert.account = .doNothing <;> simp [haccount]

theorem previousStatus_merged (first : AccountRevert) (rest : List AccountRevert) :
    (rest.foldl mergeRevert first).previousStatus = first.previousStatus := by
  induction rest generalizing first with
  | nil => rfl
  | cons next rest ih => exact ih (mergeRevert first next)

theorem mergedBy_foldl (first : AccountRevert) (rest : List AccountRevert) :
    MergedBy (first :: rest) (rest.foldl mergeRevert first) where
  previousStatus := congrArg some (previousStatus_merged first rest).symm
  account := by
    rw [account_eq, put_merged meaningful_merge, findSome?_meaningful]
  wipeStorage := by
    rw [wipeStorage_merged, List.any_eq_true]
  storage := fun slot => @put_merged _ _ (fun revert : AccountRevert => revert.storage.lookup slot)
    mergeRevert (fun kept new => lookup_merge kept new slot) first rest

/-! The one transition. -/

theorem flattenReverts_eq (reverts : Reverts) :
    flattenReverts reverts = [pairsOf (collate mergeRevert reverts.flatten)] := rfl

/-- One transition, with every account of the input once, merged by the rules. -/
theorem flattenReverts_merges (reverts : Reverts) :
    ∃ transition, flattenReverts reverts = [transition] ∧
      (transition.map Prod.fst).Nodup ∧
      (∀ address, address ∈ transition.map Prod.fst ↔ address ∈ reverts.flatten.map Prod.fst) ∧
      ∀ address merged, (address, merged) ∈ transition →
        MergedBy (revertsOf reverts address) merged := by
  refine ⟨_, flattenReverts_eq reverts, keys_pairsOf_nodup _, mem_keys_collate _ _, ?_⟩
  intro address merged hmem
  have hlookup := mem_pairsOf.mp hmem
  rw [lookup_collate] at hlookup
  unfold revertsOf
  cases hreverts : valuesOf address reverts.flatten with
  | nil =>
      rw [hreverts] at hlookup
      cases hlookup
  | cons first rest =>
      rw [hreverts] at hlookup
      cases hlookup
      exact mergedBy_foldl first rest

/-! Cutting the transitions into pieces. -/

/-- Reverts that say the same; the order of the slots is that of a hash map too. -/
structure SameRevert (left right : AccountRevert) : Prop where
  account : left.account = right.account
  previousStatus : left.previousStatus = right.previousStatus
  wipeStorage : left.wipeStorage = right.wipeStorage
  storage : ∀ slot, left.storage.lookup slot = right.storage.lookup slot

def SameReverts (left right : Reverts) : Prop := List.Forall₂ (SamePairs SameRevert) left right

theorem sameRevert_equivalence : Equivalence SameRevert where
  refl _ := ⟨rfl, rfl, rfl, fun _ => rfl⟩
  symm h := ⟨h.account.symm, h.previousStatus.symm, h.wipeStorage.symm, fun slot =>
    (h.storage slot).symm⟩
  trans h h' := ⟨h.account.trans h'.account, h.previousStatus.trans h'.previousStatus,
    h.wipeStorage.trans h'.wipeStorage, fun slot => (h.storage slot).trans (h'.storage slot)⟩

theorem mergeRevert_congr {left right : AccountRevert} (new : AccountRevert)
    (h : SameRevert left right) : SameRevert (mergeRevert left new) (mergeRevert right new) where
  account := by simp only [mergeRevert, h.account]
  previousStatus := h.previousStatus
  wipeStorage := by simp only [mergeRevert, h.wipeStorage]
  storage slot := by rw [lookup_merge, lookup_merge, h.storage slot]

theorem mergeRevert_assoc (x y z : AccountRevert) :
    SameRevert (mergeRevert x (mergeRevert y z)) (mergeRevert (mergeRevert x y) z) where
  account := by
    rw [account_eq, account_eq (mergeRevert (mergeRevert x y) z), meaningful_merge,
      meaningful_merge, meaningful_merge, meaningful_merge, Option.or_assoc]
  previousStatus := rfl
  wipeStorage := (Bool.or_assoc _ _ _).symm
  storage slot := by
    rw [lookup_merge, lookup_merge, lookup_merge, lookup_merge, Option.or_assoc]

theorem associative_mergeRevert : Associative SameRevert mergeRevert where
  equivalence := sameRevert_equivalence
  congr := mergeRevert_congr
  assoc := mergeRevert_assoc

def SameFlat (left right : Reverts) : Prop :=
  ∀ address, (collate mergeRevert left.flatten).lookup address =
    (collate mergeRevert right.flatten).lookup address

theorem SameFlat.trans {left middle right : Reverts} (h : SameFlat left middle)
    (h' : SameFlat middle right) : SameFlat left right :=
  fun address => (h address).trans (h' address)

theorem SameFlat.append {left right : Reverts} (h : SameFlat left right) (next : Reverts) :
    SameFlat (left ++ next) (right ++ next) := by
  intro address
  rw [List.flatten_append, List.flatten_append, lookup_collate_append, lookup_collate_append,
    h address]

theorem sameFlat_flattenReverts (reverts : Reverts) :
    SameFlat (flattenReverts reverts) reverts := by
  intro address
  have hcollated := lookup_collate_pairsOf_append mergeRevert
    (collate mergeRevert reverts.flatten) [] address
  rw [List.append_nil] at hcollated
  rw [flatten_flattenReverts, hcollated]
  rfl

theorem SameFlat.flattened {left right : Reverts} (h : SameFlat left right) :
    SameReverts (flattenReverts left) (flattenReverts right) := by
  rw [flattenReverts_eq, flattenReverts_eq]
  refine .cons (samePairs_of_lookup ?_) .nil
  intro address
  rw [h address]
  cases (collate mergeRevert right.flatten).lookup address with
  | none => exact .none
  | some revert => exact .some (sameRevert_equivalence.refl revert)

def flattenPieces (first : Reverts) (rest : List Reverts) : Reverts :=
  rest.foldl (fun kept piece => flattenReverts (kept ++ piece)) (flattenReverts first)

theorem sameFlat_flattenPieces (first : Reverts) (rest : List Reverts) :
    SameFlat (flattenPieces first rest) (first ++ rest.flatten) := by
  induction rest using List.reverseRecOn with
  | nil =>
      rw [List.flatten_nil, List.append_nil]
      exact sameFlat_flattenReverts first
  | append_singleton rest piece ih =>
      rw [flattenPieces, List.foldl_concat, List.flatten_concat, ← List.append_assoc]
      exact (sameFlat_flattenReverts _).trans (ih.append piece)

/-- Piece by piece, both pieces first, after every piece of any cut, or twice. -/
theorem flattenReverts_piecewise :
    (∀ a b, SameReverts (flattenReverts (flattenReverts a ++ b)) (flattenReverts (a ++ b))) ∧
      (∀ a b, SameReverts (flattenReverts (flattenReverts a ++ flattenReverts b))
        (flattenReverts (a ++ b))) ∧
      (∀ first rest, SameReverts (flattenPieces first rest)
        (flattenReverts (first :: rest).flatten)) ∧
      ∀ a, SameReverts (flattenReverts (flattenReverts a)) (flattenReverts a) := by
  refine ⟨?_, ?_, ?_, ?_⟩
  · intro a b
    exact ((sameFlat_flattenReverts a).append b).flattened
  · intro a b
    refine .cons (samePairs_of_lookup ?_) .nil
    intro address
    rw [List.flatten_append, List.flatten_append, flatten_flattenReverts, flatten_flattenReverts]
    exact rel_collate_append associative_mergeRevert a.flatten b.flatten address
  · intro first rest
    cases List.eq_nil_or_concat' rest with
    | inl hnil =>
        subst hnil
        have hsame : SameFlat first first := fun _ => rfl
        simpa [flattenPieces] using hsame.flattened
    | inr hconcat =>
        obtain ⟨before, piece, rfl⟩ := hconcat
        rw [flattenPieces, List.foldl_concat, List.flatten_cons, List.flatten_concat,
          ← List.append_assoc]
        exact ((sameFlat_flattenPieces first before).append piece).flattened
  · intro a
    exact (sameFlat_flattenReverts a).flattened

end WorldChain.Step.Flatten
