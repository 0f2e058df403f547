import WorldChain.Executor.Contents

/-! What becomes of a pre-confirmation: the pending block of a follower only ever grows,
until a later block takes its place. -/
namespace WorldChain.Executor.Kept
open Library.Fallible Library.Runs Wire.Primitives Wire.Collection Deps.Revm Deps.Reth Deps.Calls
open Deps.Concrete Builder.Assemble Builder.Outcome Builder.Cut
open Process Announced Coupling Preconfirmed Contents

variable {Tx Db Core : Type}

inductive Advances (earlier later : Flashblocks) : Prop
  | replaced (h : earlier.base.timestamp < later.base.timestamp)
  | continued (base : later.base = earlier.base) (h : earlier.toList <+: later.toList)

/-- The later block has what is in the earlier one, in its place and with the same receipts. -/
structure Extends (earlier later : BuiltPayloadExecutedBlock Tx) : Prop where
  parentHash : later.recoveredBlock.block.header.parentHash =
    earlier.recoveredBlock.block.header.parentHash
  number : later.recoveredBlock.block.header.number = earlier.recoveredBlock.block.header.number
  timestamp : later.recoveredBlock.block.header.timestamp =
    earlier.recoveredBlock.block.header.timestamp
  transactions : earlier.recoveredBlock.block.body.transactions <+:
    later.recoveredBlock.block.body.transactions
  receipts : earlier.executionOutput.receipts.flatten <+: later.executionOutput.receipts.flatten

variable {X : Crates Tx Db Core} {debugAssertions : Bool} {chain : Chain Db}
variable {chainSpec : OpChainSpec} {base : ExecutionPayloadBaseV1}

/-! The collection. -/

theorem Advances.refl (flashblocks : Flashblocks) : Advances flashblocks flashblocks :=
  .continued rfl List.prefix_rfl

theorem Advances.trans {earlier middle later : Flashblocks} (h : Advances earlier middle)
    (h' : Advances middle later) : Advances earlier later := by
  cases h with
  | replaced hless =>
      cases h' with
      | replaced hless' => exact .replaced (UInt64.lt_trans hless hless')
      | continued hbase _ => exact .replaced (by rwa [hbase])
  | continued hbase hextends =>
      cases h' with
      | replaced hless' => exact .replaced (by rwa [← hbase])
      | continued hbase' hextends' => exact .continued (hbase'.trans hbase) (hextends.trans hextends')

theorem Advances.push {self next : Flashblocks} {flashblock : Flashblock} {isNew : Bool}
    (h : self.push flashblock = .ok (isNew, next)) : Advances self next := by
  have hbase := push_base h
  obtain ⟨_, _, _, htoList⟩ := push_ok h
  cases isNew with
  | true => exact .replaced hbase.2
  | false => exact .continued hbase ⟨[flashblock], htoList.symm⟩

/-- The step lemma: no call takes a flashblock away, unless a later payload begins. -/
theorem advances_step (self : FlashblocksStateExecutor Tx) (call : Call Tx Db) :
    Advances self.inner.flashblocks (step X debugAssertions self call).1.inner.flashblocks := by
  cases call with
  | registerPayloadEvents => exact .refl _
  | publishBuiltPayload payload builtPayload id_eq =>
      simp only [step]
      rcases publishBuiltPayload_cases self payload builtPayload with
        ⟨e, heq⟩ | ⟨isNew, next, hpush, heq⟩
      · rw [heq]
        exact .refl _
      · rw [heq]
        exact .push hpush
  | processFlashblock provider spec fuel flashblock =>
      simp only [step]
      cases hdone : processFlashblock X debugAssertions provider spec fuel self flashblock with
      | none => exact .refl _
      | some done =>
          cases processed hdone with
          | known => exact .refl _
          | refused => exact .refl _
          | failed isNew =>
              dsimp only
              rw [opened_flashblocks]
              exact .refl _
          | installed isNew payload next _ _ _ _ hpush => exact .push hpush

theorem advances_run (self : FlashblocksStateExecutor Tx) (calls : List (Call Tx Db)) :
    Advances self.inner.flashblocks
      (exec (step X debugAssertions) self calls).1.inner.flashblocks := by
  induction calls generalizing self with
  | nil => exact .refl _
  | cons call calls ih => exact (advances_step self call).trans (ih _)

/-! The block. -/

theorem tallyFrom_receipts (terms : Terms) (start : Tally) (charges : List (Charge Tx)) :
    start.receipts <+: (tallyFrom X terms start charges).receipts := by
  induction charges generalizing start with
  | nil => exact List.prefix_rfl
  | cons charge rest ih => exact (List.prefix_append _ _).trans (ih (start.add X terms charge))

theorem extends_of_continued (hlaws : RecoverLaws X) {before after : List Flashblock}
    {earlier later : OpBuiltPayload Tx} {executed executed' : BuiltPayloadExecutedBlock Tx}
    (hearlier : executeAll X chain chainSpec base before = .ok (some earlier))
    (hlater : executeAll X chain chainSpec base (before ++ after) = .ok (some later))
    (h : OnParent chain base earlier executed) (h' : OnParent chain base later executed') :
    Extends executed executed' := by
  have hcontinued : after.foldlM (execute X chain chainSpec base) (some earlier) =
      .ok (some later) := by
    rw [executeAll, List.foldlM_append] at hlater
    rw [executeAll] at hearlier
    rw [hearlier] at hlater
    exact hlater
  obtain ⟨evmEnv, _, runs, hblock⟩ := blockOf_executeAll hlaws hearlier
  obtain ⟨parts, hparts, hbuilt⟩ := executed_parts hcontinued
  obtain ⟨runs', _, haccounts, _⟩ :=
    accounts_along hlaws hblock.accounts (terms_of_parts hblock.env hparts) hbuilt
  have hreceipts : earlier.receipts <+: later.receipts := by
    have hfirst := congrArg Tally.receipts hblock.accounts.2
    have hall := congrArg Tally.receipts haccounts.2
    rw [tallyFrom, List.foldl_append] at hall
    rw [tallyOfPayload] at hfirst hall
    dsimp only at hfirst hall
    rw [hfirst, hall]
    exact tallyFrom_receipts _ _ _
  rw [OpBuiltPayload.receipts, OpBuiltPayload.receipts, h.executedBlock, h'.executedBlock]
    at hreceipts
  constructor
  · rw [h.block, h'.block, h.parentHash, h'.parentHash]
  · rw [h.block, h'.block, h.number, h'.number]
  · rw [h.block, h'.block, h.timestamp, h'.timestamp]
  · rw [h.block, h'.block, hblock.accounts.1, haccounts.1, List.map_append]
    exact List.prefix_append _ _
  · exact hreceipts

/-- Pre-confirmations are kept: whatever a follower pre-confirms at one time, its pending block
has at any later time in the same place and with the same receipts, unless the block of a later
payload has taken its place. -/
theorem preconfirmations_kept (hlaws : RecoverLaws X) (debugAssertions : Bool)
    (chainSpec : OpChainSpec) (start : FlashblocksStateExecutor Tx) (before after : List (Call Tx Db))
    (h : Meets (step X debugAssertions) (Following X debugAssertions chain chainSpec) start
      (before ++ after))
    (hpushed : Pushed (exec (step X debugAssertions) start before).2) :
    ∃ earlier later,
      (exec (step X debugAssertions) start before).1.pendingBlock = some earlier ∧
      (exec (step X debugAssertions) start (before ++ after)).1.pendingBlock = some later ∧
      (earlier.recoveredBlock.block.header.timestamp <
          later.recoveredBlock.block.header.timestamp ∨
        Extends earlier later) := by
  have hadvances := @advances_run _ _ _ X debugAssertions
    (exec (step X debugAssertions) start before).1 after
  obtain ⟨earlier, hearlier, _, hpending⟩ := executed_along_run h.of_append hpushed
  obtain ⟨executed, honParent⟩ := onParent_of_executeAll hearlier
  have hpushed' : Pushed (exec (step X debugAssertions) start (before ++ after)).2 := by
    rw [exec_append, pushed_append]
    exact .inl hpushed
  obtain ⟨later, hlater, _, hpending'⟩ := executed_along_run h hpushed'
  obtain ⟨executed', honParent'⟩ := onParent_of_executeAll hlater
  refine ⟨executed, executed', hpending.trans honParent.executedBlock,
    hpending'.trans honParent'.executedBlock, ?_⟩
  rw [exec_append] at hlater honParent'
  dsimp only at hlater honParent'
  cases hadvances with
  | replaced hless =>
      left
      rw [honParent.block, honParent'.block, honParent.timestamp, honParent'.timestamp]
      exact hless
  | continued hbase hextends =>
      right
      obtain ⟨rest, hrest⟩ := hextends
      rw [hbase] at hlater honParent'
      rw [← hrest] at hlater
      exact extends_of_continued hlaws hearlier hlater honParent honParent'

theorem preconfirmations_kept_two_flashblocks :
    ∃ earlier later,
      (exec (step sample false) (.new none) [processes (opens 1 12 [[1, 0]])]).1.pendingBlock =
        some earlier ∧
      (exec (step sample false) (.new none)
        [processes (opens 1 12 [[1, 0]]), processes (continues [[2, 0]])]).1.pendingBlock =
          some later ∧
      (earlier.recoveredBlock.block.header.timestamp <
          later.recoveredBlock.block.header.timestamp ∨
        Extends earlier later) :=
  preconfirmations_kept sample_recoverLaws false sampleChainSpec (.new none)
    [processes (opens 1 12 [[1, 0]])] [processes (continues [[2, 0]])] following_two
    ⟨_, List.mem_cons_of_mem _ List.mem_cons_self⟩

end WorldChain.Executor.Kept
