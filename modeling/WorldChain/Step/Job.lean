import Mathlib.Data.List.DropRight
import WorldChain.Step.SameHeader
import WorldChain.Wire.Collection

/-! A payload job: the pipeline stages checkpoints and places barriers, and the
step publishes. The node may use its executor in between. -/
namespace WorldChain.Step.Job
open Library.Fallible Library.Runs
open Wire.Primitives Deps.Revm Deps.Reth Deps.Calls Deps.Concrete Reverts
open Builder.Assemble Executor.Process Publish SameHeader

variable {Tx Db Core : Type}

inductive Entry (Tx : Type)
  | checkpoint (checkpoint : Checkpoint Tx)
  | barrier (context : WorldContext Tx)

def Entry.context : Entry Tx → Option (WorldContext Tx)
  | .checkpoint _ => none
  | .barrier context => some context

/-- A barrier executes nothing. -/
def Entry.checkpointOf : Entry Tx → Checkpoint Tx
  | .checkpoint staged => staged
  | .barrier _ => { state := none, transactions := [], result := none, prev := none }

def latestBarrier (entries : List (Entry Tx)) : Option (WorldContext Tx) :=
  entries.reverse.findSome? Entry.context

def staging (entries : List (Entry Tx)) : List (Entry Tx) :=
  entries.rtakeWhile fun entry => entry.context.isNone

structure CheckpointExt (Tx : Type) where
  cumulativeDaFootprint : List (Entry Tx) → Option UInt64
  alloyBal : List (Entry Tx) → BlockAccessList

def payloadOf (R : CheckpointExt Tx) (block : BlockContext Tx) (entries : List (Entry Tx)) :
    Payload Tx where
  block := block
  latestBarrier := latestBarrier entries
  history := entries.map Entry.checkpointOf
  historyStaging := (staging entries).map Entry.checkpointOf
  cumulativeDaFootprint := R.cumulativeDaFootprint entries
  alloyBal := R.alloyBal entries

structure PayloadJob (Tx : Type) where
  step : PublishFlashblock Tx
  entries : List (Entry Tx)

inductive Action (Tx Db : Type)
  | add (checkpoint : Checkpoint Tx)
  | barrier (context : WorldContext Tx)
  | publish (now : Int)
  /-- Another task of the node calls the executor. -/
  | elsewhere (call : Executor.Coupling.Call Tx Db)

variable (X : Crates Tx Db Core) (R : CheckpointExt Tx) (debugAssertions : Bool)
  (ctx : StepContext Tx Db)

/-- The barrier of a published flashblock goes behind the entries it was built from. -/
def placed (entries : List (Entry Tx)) : ControlFlow Tx → List (Entry Tx)
  | .ok (some context) => entries ++ [.barrier context]
  | .ok none | .fail _ => entries

def act (job : PayloadJob Tx) : Action Tx Db → PayloadJob Tx × List (Published Tx)
  | .add checkpoint => ({ job with entries := job.entries ++ [.checkpoint checkpoint] }, [])
  | .barrier context => ({ job with entries := job.entries ++ [.barrier context] }, [])
  | .publish now =>
      let payload := payloadOf R ctx.block job.entries
      let stepped := Publish.step X debugAssertions job.step payload ctx now
      (⟨stepped.self, placed job.entries stepped.flow⟩, publishedBy payload stepped)
  | .elsewhere call =>
      ({ job with step := { job.step with
          p2p := (Executor.Coupling.step X debugAssertions job.step.p2p call).1 } }, [])

/-- A job starts on a step whose last job has ended. -/
def begin (self : PublishFlashblock Tx) : PayloadJob Tx := ⟨beforeJob (afterJob self) ctx, []⟩

/-! Entries behind a barrier. -/

theorem latestBarrier_append_barrier (before after : List (Entry Tx)) (context : WorldContext Tx)
    (h : ∀ entry ∈ after, entry.context = none) :
    latestBarrier (before ++ .barrier context :: after) = some context := by
  unfold latestBarrier
  have hafter : after.reverse.findSome? Entry.context = none := by
    apply List.findSome?_eq_none_iff.mpr
    intro entry hentry
    exact h entry (List.mem_reverse.mp hentry)
  rw [List.reverse_append, List.reverse_cons, List.append_assoc, List.findSome?_append, hafter]
  rfl

theorem staging_behind_barrier (before after : List (Entry Tx)) (context : WorldContext Tx) :
    staging (before ++ .barrier context :: after) = staging after := by
  unfold staging
  induction after using List.reverseRecOn with
  | nil => exact List.rtakeWhile_concat_neg _ before (.barrier context) Bool.false_ne_true
  | append_singleton after entry ih =>
      rw [← List.cons_append, ← List.append_assoc]
      by_cases hentry : entry.context.isNone
      · rw [List.rtakeWhile_concat_pos _ _ entry hentry, List.rtakeWhile_concat_pos _ _ entry hentry,
          ih]
      · rw [List.rtakeWhile_concat_neg _ _ entry hentry, List.rtakeWhile_concat_neg _ _ entry hentry]

theorem staging_append_barrier (before after : List (Entry Tx)) (context : WorldContext Tx)
    (h : ∀ entry ∈ after, entry.context = none) :
    staging (before ++ .barrier context :: after) = after := by
  rw [staging_behind_barrier]
  apply List.rtakeWhile_eq_self_iff.mpr
  intro entry hentry
  rw [h entry hentry]
  rfl

theorem mem_of_latestBarrier {entries : List (Entry Tx)} {context : WorldContext Tx}
    (h : latestBarrier entries = some context) : .barrier context ∈ entries := by
  obtain ⟨entry, hmem, hcontext⟩ := List.exists_of_findSome?_eq_some h
  cases entry with
  | checkpoint checkpoint => cases hcontext
  | barrier found =>
      cases hcontext
      exact List.mem_reverse.mp hmem

/-! One action. -/

variable {X R debugAssertions ctx}

structure Made (X : Crates Tx Db Core) (debugAssertions : Bool) (ctx : StepContext Tx Db)
    (step : PublishFlashblock Tx) (payload : Payload Tx) (published : Published Tx) : Prop where
  spans : published.payload = payload
  built : buildOpBuiltPayload X debugAssertions step payload ctx = .ok published.builtPayload
  flashblock : ∃ now,
    published.flashblock = ⟨flashblockOf X step payload ctx now published.builtPayload⟩

/-- What publishing comes to: the payload is as it was, or the flashblock has
been pushed and a barrier holds what was built. -/
inductive PublishOutcome (X : Crates Tx Db Core) (R : CheckpointExt Tx) (debugAssertions : Bool)
    (ctx : StepContext Tx Db) (job : PayloadJob Tx) : PayloadJob Tx × List (Published Tx) → Prop
  | refused (next : PublishFlashblock Tx) (hbase : next.blockBase = job.step.blockBase) :
      PublishOutcome X R debugAssertions ctx job (⟨next, job.entries⟩, [])
  | accepted (next : PublishFlashblock Tx) (published : Published Tx) (isNew : Bool)
      (hbase : next.blockBase = job.step.blockBase)
      (hnumber : next.blockNumber = job.step.blockNumber + 1)
      (hmade : Made X debugAssertions ctx job.step (payloadOf R ctx.block job.entries) published)
      (hpush : job.step.p2p.inner.flashblocks.push published.flashblock =
        .ok (isNew, next.p2p.inner.flashblocks)) :
      PublishOutcome X R debugAssertions ctx job
        (⟨next, job.entries ++ [.barrier ⟨some published.builtPayload⟩]⟩, [published])

theorem publish_outcome (X : Crates Tx Db Core) (R : CheckpointExt Tx) (debugAssertions : Bool)
    (ctx : StepContext Tx Db) (job : PayloadJob Tx) (now : Int) :
    PublishOutcome X R debugAssertions ctx job
      (act X R debugAssertions ctx job (.publish now)) := by
  simp only [act, Publish.step]
  cases hbuilt : buildOpBuiltPayload X debugAssertions job.step (payloadOf R ctx.block job.entries)
      ctx with
  | error e => exact .refused job.step rfl
  | ok builtPayload =>
      cases publishBuiltPayload_cases job.step.p2p (flashblockOf X job.step
          (payloadOf R ctx.block job.entries) ctx now builtPayload) builtPayload with
      | inl hrefused =>
          obtain ⟨e, heq⟩ := hrefused
          dsimp only
          rw [heq]
          exact .refused _ rfl
      | inr hpublished =>
          obtain ⟨isNew, flashblocks, hpush, heq⟩ := hpublished
          dsimp only
          rw [heq]
          refine .accepted _ ⟨_, ⟨flashblockOf X job.step (payloadOf R ctx.block job.entries) ctx now
            builtPayload⟩, builtPayload⟩ isNew ?_ ?_ ⟨rfl, hbuilt, now, rfl⟩ ?_
          · rfl
          · rfl
          · exact hpush

@[simp] theorem act_blockBase (job : PayloadJob Tx) (action : Action Tx Db) :
    (act X R debugAssertions ctx job action).1.step.blockBase = job.step.blockBase := by
  cases action with
  | add checkpoint => rfl
  | barrier context => rfl
  | elsewhere call => rfl
  | publish now =>
      have houtcome := publish_outcome X R debugAssertions ctx job now
      generalize act X R debugAssertions ctx job (.publish now) = after at houtcome ⊢
      cases houtcome <;> assumption

theorem built_sealed {self : PublishFlashblock Tx} {payload : Payload Tx}
    {builtPayload : OpBuiltPayload Tx}
    (h : buildOpBuiltPayload X debugAssertions self payload ctx = .ok builtPayload) :
    ∃ previous totals roots stateRoot,
      extractPreviousState debugAssertions payload = .ok previous ∧
      (unpublishedPayload self payload).foldlM (addCheckpoint X payload ctx) previous =
        .ok totals ∧
      withdrawalsAndRequests X payload.block.chainSpec payload.block.timestamp
        (flattenBundle totals.bundle) ctx.provider = .ok roots ∧
      orError (X.stateRoot ctx.provider (flattenBundle totals.bundle)) = .ok stateRoot ∧
      builtPayload = sealPayload payload.block.payloadId
        (Publish.header X payload totals (payload.history.flatMap (·.transactions)) roots.1 roots.2
          stateRoot)
        (payload.history.flatMap (·.transactions)) (some payload.alloyBal)
        (flattenBundle totals.bundle) totals.receipts totals.fees payload.block.number := by
  obtain ⟨previous, hprevious, hrest⟩ := bind_eq_ok.mp h
  obtain ⟨totals, htotals, hassemble⟩ := bind_eq_ok.mp hrest
  obtain ⟨roots, hroots, hrest⟩ := bind_eq_ok.mp hassemble
  obtain ⟨stateRoot, hstateRoot, heq⟩ := bind_eq_ok.mp hrest
  exact ⟨previous, totals, roots, stateRoot, hprevious, htotals, hroots, hstateRoot,
    (Except.ok.inj heq).symm⟩

theorem body_of_built {self : PublishFlashblock Tx} {payload : Payload Tx}
    {builtPayload : OpBuiltPayload Tx}
    (h : buildOpBuiltPayload X debugAssertions self payload ctx = .ok builtPayload) :
    builtPayload.block.body.transactions =
        (payload.history.flatMap (·.transactions)).map (·.inner) ∧
      builtPayload.block.body.blockAccessList = some payload.alloyBal := by
  obtain ⟨_, _, _, _, _, _, _, _, hsealed⟩ := built_sealed h
  rw [hsealed]
  exact ⟨rfl, rfl⟩

/-! A checkpoint of one transaction on the sample chain. -/

def sampleExt : CheckpointExt SampleTx := ⟨fun _ => none, fun _ => []⟩

def sampleCheckpoint (nonce : UInt64) : Checkpoint SampleTx where
  state := some {}
  transactions := [⟨{ signer := 1, nonce := nonce }, 1⟩]
  result := some [⟨true, 21000, []⟩]
  prev := none

end WorldChain.Step.Job
