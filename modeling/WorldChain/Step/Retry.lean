import WorldChain.Step.Partition

/-! A publish that the executor refuses, and what is left of it to try again. -/
namespace WorldChain.Step.Retry
open Library.Runs Wire.Primitives Deps.Revm Deps.Reth Deps.Calls Deps.Concrete
open Executor.Process Executor.Announced Publish SameHeader Job Step.Partition

variable {Tx Db Core : Type}

structure Refused (X : Crates Tx Db Core) (R : CheckpointExt Tx) (debugAssertions : Bool)
    (ctx : StepContext Tx Db) (job : PayloadJob Tx) (now : Int)
    (builtPayload : OpBuiltPayload Tx) : Prop where
  built : buildOpBuiltPayload X debugAssertions job.step (payloadOf R ctx.block job.entries) ctx =
    .ok builtPayload
  failed : ∃ e, (publishBuiltPayload job.step.p2p
    (flashblockOf X job.step (payloadOf R ctx.block job.entries) ctx now builtPayload)
    builtPayload).result = .error e

/-- Between two steps transactions are added, and the node uses its executor. -/
def Between : Action Tx Db → Prop
  | .add _ | .elsewhere _ => True
  | .barrier _ | .publish _ => False

/-- The flashblock that a later step presents takes up the failed one. -/
structure TakesUp (X : Crates Tx Db Core) (R : CheckpointExt Tx) (debugAssertions : Bool)
    (ctx : StepContext Tx Db) (job later : PayloadJob Tx) : Prop where
  index : later.step.blockNumber = job.step.blockNumber
  transactions :
    encodedTxs X (unpublishedPayload job.step (payloadOf R ctx.block job.entries)) <+:
      encodedTxs X (unpublishedPayload later.step (payloadOf R ctx.block later.entries))
  previous : extractPreviousState debugAssertions (payloadOf R ctx.block later.entries) =
    extractPreviousState debugAssertions (payloadOf R ctx.block job.entries)

structure Retriable (X : Crates Tx Db Core) (R : CheckpointExt Tx) (debugAssertions : Bool)
    (ctx : StepContext Tx Db) (job after : PayloadJob Tx) : Prop where
  payload : after.entries = job.entries
  blockNumber : after.step.blockNumber = job.step.blockNumber
  blockBase : after.step.blockBase = job.step.blockBase
  next : ∀ actions, (∀ action ∈ actions, Between action) →
    TakesUp X R debugAssertions ctx job (exec (act X R debugAssertions ctx) after actions).1

variable {X : Crates Tx Db Core} {R : CheckpointExt Tx} {debugAssertions : Bool}
  {ctx : StepContext Tx Db}

theorem act_of_refused {job : PayloadJob Tx} {now : Int} {builtPayload : OpBuiltPayload Tx}
    (h : Refused X R debugAssertions ctx job now builtPayload) :
    act X R debugAssertions ctx job (.publish now) =
      (⟨{ job.step with blockNumber := job.step.blockNumber + 1 }, job.entries⟩, []) := by
  obtain ⟨e, hfailed⟩ := h.failed
  simp only [act, Publish.step, h.built]
  rcases publishBuiltPayload_cases job.step.p2p (flashblockOf X job.step
      (payloadOf R ctx.block job.entries) ctx now builtPayload) builtPayload with
    ⟨_, heq⟩ | ⟨_, _, _, heq⟩
  · rw [heq]
    rfl
  · rw [heq] at hfailed
    cases hfailed

/-! With the counter put back, the publish could be tried again. -/

theorem staging_append_staged (entries staged : List (Entry Tx))
    (h : ∀ entry ∈ staged, entry.context = none) :
    staging (entries ++ staged) = staging entries ++ staged := by
  induction staged using List.reverseRecOn with
  | nil => rw [List.append_nil, List.append_nil]
  | append_singleton staged entry ih =>
      have hlast : entry.context.isNone := by
        rw [h entry (List.mem_append_right _ List.mem_cons_self)]
        rfl
      have hrest := ih fun other hmem => h other (List.mem_append_left _ hmem)
      rw [← List.append_assoc, staging, List.rtakeWhile_concat_pos _ _ entry hlast, ← staging,
        hrest, List.append_assoc]

theorem latestBarrier_append_staged (entries staged : List (Entry Tx))
    (h : ∀ entry ∈ staged, entry.context = none) :
    latestBarrier (entries ++ staged) = latestBarrier entries := by
  have hnone : staged.reverse.findSome? Entry.context = none := by
    apply List.findSome?_eq_none_iff.mpr
    intro entry hentry
    exact h entry (List.mem_reverse.mp hentry)
  rw [latestBarrier, List.reverse_append, List.findSome?_append, hnone]
  rfl

theorem unpublished_append_staged (step : PublishFlashblock Tx) (block : BlockContext Tx)
    (entries staged : List (Entry Tx)) (h : ∀ entry ∈ staged, entry.context = none) :
    unpublishedPayload step (payloadOf R block (entries ++ staged)) =
      unpublishedPayload step (payloadOf R block entries) ++ staged.map Entry.checkpointOf := by
  unfold unpublishedPayload payloadOf
  split
  · exact List.map_append
  · rw [staging_append_staged entries staged h]
    exact List.map_append

theorem between_run {job : PayloadJob Tx} {actions : List (Action Tx Db)}
    (h : ∀ action ∈ actions, Between action) :
    (exec (act X R debugAssertions ctx) job actions).1.step.blockNumber = job.step.blockNumber ∧
      ∃ staged, (∀ entry ∈ staged, entry.context = none) ∧
        (exec (act X R debugAssertions ctx) job actions).1.entries = job.entries ++ staged := by
  induction actions generalizing job with
  | nil => exact ⟨rfl, [], by simp, by simp⟩
  | cons action rest ih =>
      have hrest : ∀ later ∈ rest, Between later := fun later hmem =>
        h later (List.mem_cons_of_mem _ hmem)
      have hfirst := h action List.mem_cons_self
      rw [exec_cons]
      cases action with
      | barrier context => exact hfirst.elim
      | publish now => exact hfirst.elim
      | elsewhere call => exact ih hrest
      | add checkpoint =>
          obtain ⟨hnumber, staged, hstaged, hentries⟩ :=
            @ih { job with entries := job.entries ++ [.checkpoint checkpoint] } hrest
          refine ⟨hnumber, .checkpoint checkpoint :: staged, ?_, ?_⟩
          · intro entry hmem
            rcases List.mem_cons.mp hmem with rfl | hmem
            · rfl
            · exact hstaged entry hmem
          · simpa [act] using hentries

theorem takesUp_of_counter {job later : PayloadJob Tx} {staged : List (Entry Tx)}
    (hnumber : later.step.blockNumber = job.step.blockNumber)
    (hstaged : ∀ entry ∈ staged, entry.context = none)
    (hentries : later.entries = job.entries ++ staged) :
    TakesUp X R debugAssertions ctx job later := by
  have hspan : unpublishedPayload later.step (payloadOf R ctx.block later.entries) =
      unpublishedPayload job.step (payloadOf R ctx.block job.entries) ++
        staged.map Entry.checkpointOf := by
    rw [← unpublished_append_staged job.step ctx.block job.entries staged hstaged, hentries]
    simp only [unpublishedPayload, hnumber]
  refine ⟨hnumber, ?_, ?_⟩
  · rw [hspan, encodedTxs, encodedTxs, List.flatMap_append]
    exact List.prefix_append _ _
  · simp only [extractPreviousState, payloadOf, hentries,
      latestBarrier_append_staged job.entries staged hstaged]

/-- The counter is all that stands in the way. -/
theorem retriable_with_counter {job : PayloadJob Tx} {now : Int} {builtPayload : OpBuiltPayload Tx}
    (h : Refused X R debugAssertions ctx job now builtPayload) :
    let after := (act X R debugAssertions ctx job (.publish now)).1
    Retriable X R debugAssertions ctx job
      { after with step := { after.step with blockNumber := job.step.blockNumber } } := by
  rw [act_of_refused h]
  refine ⟨rfl, rfl, rfl, ?_⟩
  intro actions hbetween
  obtain ⟨hnumber, staged, hstaged, hentries⟩ := @between_run _ _ _ X R debugAssertions ctx
    job actions hbetween
  exact takesUp_of_counter hnumber hstaged hentries

/-- No publish that fails can be tried again: the counter has gone up. -/
theorem refused_never_retriable (job : PayloadJob Tx) (now : Int)
    (builtPayload : OpBuiltPayload Tx)
    (h : Refused X R debugAssertions ctx job now builtPayload) :
    ¬Retriable X R debugAssertions ctx job (act X R debugAssertions ctx job (.publish now)).1 := by
  rw [act_of_refused h]
  intro hretriable
  have hnumber : job.step.blockNumber + 1 = job.step.blockNumber := hretriable.blockNumber
  exact absurd hnumber (by simp)

/-! A flashblock of payload 2, at the time of the job's block, has come in from a
peer before the job publishes its first one. -/

def overtakenJob : PayloadJob SampleTx :=
  (exec (act sample sampleExt false sampleJob) (begin sampleJob ⟨.new none, 0, none⟩)
    [.add (sampleCheckpoint 0), .barrier {}, .elsewhere (.processFlashblock sampleProvider
      sampleChainSpec 1 (opens 2 12 []))]).1

theorem overtaken_refused : ∃ builtPayload,
    Refused sample sampleExt false sampleJob overtakenJob 0 builtPayload :=
  ⟨_, rfl, _, rfl⟩

theorem refused_never_retriable_overtaken : ∃ builtPayload,
    Refused sample sampleExt false sampleJob overtakenJob 0 builtPayload ∧
    ¬Retriable sample sampleExt false sampleJob overtakenJob
      (act sample sampleExt false sampleJob overtakenJob (.publish 0)).1 := by
  obtain ⟨builtPayload, hrefused⟩ := overtaken_refused
  exact ⟨builtPayload, hrefused, refused_never_retriable overtakenJob 0 builtPayload hrefused⟩

/-- The next flashblock of that job would be flashblock 1, without the transactions
before the prologue's barrier. -/
theorem failed_publish_not_retriable :
    ¬∀ (job : PayloadJob SampleTx) now builtPayload,
      Refused sample sampleExt false sampleJob job now builtPayload →
        Retriable sample sampleExt false sampleJob job
          (act sample sampleExt false sampleJob job (.publish now)).1 := by
  intro hall
  obtain ⟨builtPayload, hrefused⟩ := overtaken_refused
  have hnumber := (hall overtakenJob 0 builtPayload hrefused).blockNumber
  rw [act_of_refused hrefused] at hnumber
  exact absurd hnumber (by decide)

end WorldChain.Step.Retry
