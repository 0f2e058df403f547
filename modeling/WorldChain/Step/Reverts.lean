import WorldChain.Deps.Revm

/-! `flatten_reverts`: the transitions of a bundle merged into one. -/
namespace WorldChain.Step.Reverts
open Library.Upsert Wire.Primitives Deps.Revm

/-- A later revert of an account merged into the one kept so far: the earliest
status, slot values and account revert win, and a wipe is never forgotten. -/
def mergeRevert (entry accRevert : AccountRevert) : AccountRevert where
  wipeStorage := entry.wipeStorage || accRevert.wipeStorage
  storage := mergeInto (fun kept _ => kept) entry.storage accRevert.storage
  account :=
    if entry.account = .doNothing ∧ accRevert.account ≠ .doNothing then accRevert.account
    else entry.account
  previousStatus := entry.previousStatus

/-- The order of the accounts is that of a hash map and means nothing. -/
def flattenReverts (reverts : Reverts) : Reverts :=
  let perAccount : Map Address AccountRevert := reverts.flatten.foldl
    (fun perAccount revert =>
      upsert perAccount revert.1 (fun entry => mergeRevert entry revert.2) revert.2) ∅
  [perAccount.entries.map fun entry => (entry.1, entry.2)]

def flattenBundle (bundle : BundleState) : BundleState :=
  { bundle with reverts := flattenReverts bundle.reverts }

@[simp] theorem flattenBundle_state (bundle : BundleState) :
    (flattenBundle bundle).state = bundle.state := rfl

end WorldChain.Step.Reverts
