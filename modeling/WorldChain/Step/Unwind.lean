import Mathlib.Logic.Function.Basic
import WorldChain.Library.Collate
import WorldChain.Library.Undo
import WorldChain.Step.Reverts

/-! Undoing a block by its reverts: one transition after the other, or by the
single transition that they are flattened into. -/
namespace WorldChain.Step.Unwind
open Library.Collate Library.Undo Library.Upsert Wire.Primitives Deps.Revm Reverts

@[ext] structure Account where
  info : Option AccountInfo
  status : AccountStatus
  storage : U256 → U256

/-! What one revert says. `pre` is the account's storage in the pre-block database. -/

def putInfo (revert : AccountRevert) : Option (Option AccountInfo) :=
  match revert.account with
  | .doNothing => none
  | .deleteIt => some none
  | .revertTo info => some (some info)

def restore (pre : U256 → U256) (slot : U256) : RevertToSlot → U256
  | .some value => value
  | .destroyed => pre slot

def putSlot (pre : U256 → U256) (slot : U256) (revert : AccountRevert) : Option U256 :=
  match revert.storage.lookup slot with
  | some listed => some (restore pre slot listed)
  | none => if revert.wipeStorage then some (pre slot) else none

def undoRevert (pre : U256 → U256) (revert : AccountRevert) (account : Account) : Account where
  info := (putInfo revert).getD account.info
  status := revert.previousStatus
  storage slot := (putSlot pre slot revert).getD (account.storage slot)

/-- A transition has one revert for an account, so their order does not matter. -/
def undoTransition (pre : Address → U256 → U256) (transition : List (Address × AccountRevert))
    (accounts : Address → Account) : Address → Account :=
  transition.foldr
    (fun entry accounts => Function.update accounts entry.1
      (undoRevert (pre entry.1) entry.2 (accounts entry.1))) accounts

def undoTransitions (pre : Address → U256 → U256) (reverts : Reverts)
    (accounts : Address → Account) : Address → Account :=
  reverts.foldr (undoTransition pre) accounts

def revertsOf (reverts : Reverts) (address : Address) : List AccountRevert :=
  valuesOf address reverts.flatten

def decides (slot : U256) (revert : AccountRevert) : Bool :=
  revert.wipeStorage || (revert.storage.lookup slot).isSome

/-- Where the first revert that lists the slot or wipes the storage wipes it
without listing it, the first one that lists it restores the wiped value. -/
def KeepsWipe (pre : U256 → U256) (reverts : List AccountRevert) (slot : U256) : Prop :=
  ∀ wiping ∈ reverts.find? (decides slot), wiping.storage.lookup slot = none →
    ∀ listed ∈ reverts.findSome? fun revert => revert.storage.lookup slot,
      restore pre slot listed = pre slot

variable {pre : Address → U256 → U256} {accounts : Address → Account}

theorem undoTransition_apply (entries : List (Address × AccountRevert)) (address : Address) :
    undoTransition pre entries accounts address =
      (valuesOf address entries).foldr (undoRevert (pre address)) (accounts address) := by
  induction entries with
  | nil => rfl
  | cons entry rest ih =>
      rw [valuesOf_cons, List.foldr_append, ← ih, undoTransition, List.foldr_cons]
      by_cases haddress : entry.1 = address
      · rw [← haddress, Function.update_self, if_pos rfl]
        rfl
      · rw [Function.update_of_ne (Ne.symm haddress), if_neg haddress]
        rfl

theorem undoTransitions_apply (reverts : Reverts) (address : Address) :
    undoTransitions pre reverts accounts address =
      (revertsOf reverts address).foldr (undoRevert (pre address)) (accounts address) := by
  induction reverts with
  | nil => rfl
  | cons transition rest ih =>
      rw [undoTransitions, List.foldr_cons, undoTransition_apply, revertsOf, List.flatten_cons,
        valuesOf_append, List.foldr_append]
      exact congrArg (fun account => (valuesOf address transition).foldr _ account) ih

/-- Each part of the account has an undo log of its own. -/
theorem undoReverts_eq (pre : U256 → U256) (reverts : List AccountRevert) (account : Account) :
    reverts.foldr (undoRevert pre) account = {
      info := undoAll putInfo reverts account.info
      status := undoAll (fun revert => some revert.previousStatus) reverts account.status
      storage := fun slot => undoAll (putSlot pre slot) reverts (account.storage slot) } := by
  induction reverts with
  | nil => rfl
  | cons revert rest ih =>
      rw [List.foldr_cons, ih]
      rfl

/-! The merged revert. -/

theorem putInfo_merge (kept new : AccountRevert) :
    putInfo (mergeRevert kept new) = (putInfo kept).or (putInfo new) := by
  unfold putInfo mergeRevert
  cases hkept : kept.account with
  | doNothing => cases hnew : new.account <;> simp
  | deleteIt => simp
  | revertTo info => simp

theorem lookup_merge (kept new : AccountRevert) (slot : U256) :
    (mergeRevert kept new).storage.lookup slot =
      (kept.storage.lookup slot).or (new.storage.lookup slot) :=
  lookup_mergeInto_kept kept.storage new.storage slot

theorem wipeStorage_merged (first : AccountRevert) (rest : List AccountRevert) :
    (rest.foldl mergeRevert first).wipeStorage = (first :: rest).any (·.wipeStorage) := by
  induction rest generalizing first with
  | nil => simp
  | cons next rest ih =>
      rw [List.foldl_cons, ih]
      simp [mergeRevert, Bool.or_assoc]

theorem undoRevert_merged (pre : U256 → U256) (first : AccountRevert) (rest : List AccountRevert)
    (account : Account) :
    undoRevert pre (rest.foldl mergeRevert first) account =
      { (first :: rest).foldr (undoRevert pre) account with
        storage := fun slot =>
          (putSlot pre slot (rest.foldl mergeRevert first)).getD (account.storage slot) } := by
  have hinfo := put_merged putInfo_merge first rest
  have hstatus := @put_merged _ _ (fun revert : AccountRevert => some revert.previousStatus)
    mergeRevert (fun _ _ => rfl) first rest
  rw [List.findSome?_cons] at hstatus
  rw [undoReverts_eq, undoRevert, undoAll_eq, undoAll_eq, hinfo, Option.some.inj hstatus]
  rfl

theorem putSlot_merged (pre : U256 → U256) (slot value : U256) (first : AccountRevert)
    (rest : List AccountRevert) :
    (putSlot pre slot (rest.foldl mergeRevert first)).getD value =
      match (first :: rest).findSome? fun revert => revert.storage.lookup slot with
      | some listed => restore pre slot listed
      | none => if (first :: rest).any (·.wipeStorage) then pre slot else value := by
  have hlookup := @put_merged _ _ (fun revert : AccountRevert => revert.storage.lookup slot)
    mergeRevert (fun kept new => lookup_merge kept new slot) first rest
  rw [putSlot, hlookup, wipeStorage_merged]
  split
  · rfl
  · split <;> rfl

theorem flatten_flattenReverts (reverts : Reverts) :
    (flattenReverts reverts).flatten = pairsOf (collate mergeRevert reverts.flatten) :=
  List.flatten_singleton

theorem revertsOf_flattenReverts (reverts : Reverts) (address : Address) :
    revertsOf (flattenReverts reverts) address =
      match revertsOf reverts address with
      | [] => []
      | first :: rest => [rest.foldl mergeRevert first] := by
  rw [revertsOf, flatten_flattenReverts, valuesOf_pairsOf, lookup_collate]
  unfold revertsOf
  cases valuesOf address reverts.flatten with
  | nil => rfl
  | cons first rest => rfl

theorem slot_iff (pre : U256 → U256) (reverts : List AccountRevert) (slot value : U256) :
    (match reverts.findSome? fun revert => revert.storage.lookup slot with
      | some listed => restore pre slot listed
      | none => if reverts.any (·.wipeStorage) then pre slot else value) =
        (reverts.findSome? (putSlot pre slot)).getD value ↔ KeepsWipe pre reverts slot := by
  induction reverts with
  | nil => simp [KeepsWipe]
  | cons revert rest ih =>
      cases hlookup : revert.storage.lookup slot with
      | some listed => simp [KeepsWipe, decides, putSlot, hlookup]
      | none =>
          cases hwipe : revert.wipeStorage with
          | false => simpa [KeepsWipe, decides, putSlot, hlookup, hwipe] using ih
          | true =>
              have hfirst : (revert :: rest).findSome? (putSlot pre slot) = some (pre slot) := by
                simp [putSlot, hlookup, hwipe]
              have hwiping : (revert :: rest).find? (decides slot) = some revert := by
                simp [decides, hwipe]
              simp only [KeepsWipe, hfirst, hwiping, List.findSome?_cons, hlookup]
              cases rest.findSome? fun revert => revert.storage.lookup slot with
              | none => simp [hwipe]
              | some listed => simp [hlookup]

/-- Exactly when the flattened transition undoes what the transitions undo. -/
theorem flattened_undoes_iff (pre : Address → U256 → U256) (reverts : Reverts)
    (post : Address → Account) :
    undoTransitions pre (flattenReverts reverts) post = undoTransitions pre reverts post ↔
      ∀ address slot, KeepsWipe (pre address) (revertsOf reverts address) slot := by
  rw [funext_iff]
  apply forall_congr'
  intro address
  rw [undoTransitions_apply, undoTransitions_apply, revertsOf_flattenReverts]
  cases revertsOf reverts address with
  | nil => simp [KeepsWipe]
  | cons first rest =>
      rw [List.foldr_cons, List.foldr_nil, undoRevert_merged, undoReverts_eq, Account.mk.injEq,
        funext_iff]
      simp only [true_and, putSlot_merged, undoAll_eq]
      exact forall_congr' fun slot =>
        slot_iff (pre address) (first :: rest) slot ((post address).storage slot)

/-- An account that was destroyed, and made again with a word in slot 0. -/
def destroyedAndMade : Reverts :=
  [[(1, {
      account := .revertTo {}
      storage := ∅
      previousStatus := .loaded
      wipeStorage := true })],
    [(1, {
      account := .deleteIt
      storage := ofPairs [(0, .some 0)]
      previousStatus := .destroyed
      wipeStorage := false })]]

/-- The wiped slot held 5 before the block; the flattened transition leaves it empty. -/
theorem wiped_slot_lost : ¬∀ pre reverts post,
    undoTransitions pre (flattenReverts reverts) post = undoTransitions pre reverts post := by
  intro hall
  have hundone := hall (fun _ _ => 5) destroyedAndMade fun _ => ⟨some {}, .destroyedChanged, fun _ => 1⟩
  have hslot := congrArg (fun accounts => (accounts 1).storage 0) hundone
  revert hslot
  decide

end WorldChain.Step.Unwind
