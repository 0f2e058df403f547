import WorldChain.Step.Job

/-! What a job returns. `WorldChain::build_payload` takes the payload out of the
latest barrier and falls back on the vanilla builder. -/
namespace WorldChain.Step.Sealed
open Library.Runs Wire.Primitives Deps.Revm Deps.Reth Deps.Calls Deps.Concrete
open Builder.Assemble Publish SameHeader Job

variable {Tx Db Core : Type}

section BuildPayload

/-! `OpBuilder` and the hash of a transaction are not part of the repository. -/

variable (txHash : Tx → B256)
  (opBuilder : Db → OpPayloadBuilderCtx Tx → List (Recovered Tx) →
    Except String (BuildOutcomeKind (OpBuiltPayload Tx)))

/-- Sequencer transactions at their own place in the history are counted, and
as many transactions are left out at its front. -/
def extractExternalTxs (payload : Payload Tx) : List (Recovered Tx) :=
  let sequencerTxs := payload.block.attributes.transactions.map fun tx => txHash tx.value
  let transactions := payload.history.flatMap (·.transactions)
  let matching := sequencerTxs.zipIdx.filter fun sequencerTx =>
    transactions[sequencerTx.2]?.any fun tx => txHash tx.inner = sequencerTx.1
  transactions.drop matching.length

def unreachable (message : String) : Failure :=
  .panic ("internal error: entered unreachable code: " ++ message)

def opBuildPayload (payload : Payload Tx) (provider : Db) :
    Except Failure (OpBuiltPayload Tx) := do
  let context := {
    chainSpec := payload.block.chainSpec
    config := ⟨payload.block.parent, payload.block.attributes⟩
    bestPayload := none }
  match ← orError (opBuilder provider context (extractExternalTxs txHash payload)) with
  | .better built | .freeze built => return built
  | .aborted _ =>
      .error (unreachable "We are not providing the best_payload argument to the builder.")
  | .cancelled => .error (unreachable "CancelOnDrop is not dropped in this context.")

def buildPayload (payload : Payload Tx) (provider : Db) : Except Failure (OpBuiltPayload Tx) :=
  match payload.latestBarrier.bind WorldContext.maybeBuiltPayload with
  | some builtPayload => .ok builtPayload
  | none => opBuildPayload txHash opBuilder payload provider

end BuildPayload

/-- No other step places a barrier once a flashblock has been published. -/
def BarriersFirst (reached : PayloadJob Tx × List (Published Tx)) : Action Tx Db → Prop
  | .barrier _ => reached.2 = []
  | .add _ | .publish _ | .elsewhere _ => True

/-- The entries the last flashblock was built from, its barrier, and what has
been staged since. -/
def Held (X : Crates Tx Db Core) (R : CheckpointExt Tx) (debugAssertions : Bool)
    (ctx : StepContext Tx Db) (reached : PayloadJob Tx × List (Published Tx)) : Prop :=
  ∀ last ∈ reached.2.getLast?, ∃ self before after,
    reached.1.entries = before ++ .barrier ⟨some last.builtPayload⟩ :: after ∧
    (∀ entry ∈ after, entry.context = none) ∧
    Made X debugAssertions ctx self (payloadOf R ctx.block before) last

variable {X : Crates Tx Db Core} {R : CheckpointExt Tx} {debugAssertions : Bool}
  {ctx : StepContext Tx Db}

theorem held_act {reached : PayloadJob Tx × List (Published Tx)}
    (hheld : Held X R debugAssertions ctx reached) {action : Action Tx Db}
    (hfirst : BarriersFirst reached action) :
    Held X R debugAssertions ctx ((act X R debugAssertions ctx reached.1 action).1,
      reached.2 ++ (act X R debugAssertions ctx reached.1 action).2) := by
  intro last hlast
  cases action with
  | add checkpoint =>
      rw [act, List.append_nil] at hlast
      obtain ⟨self, before, after, hentries, hafter, hmade⟩ := hheld last hlast
      refine ⟨self, before, after ++ [.checkpoint checkpoint], ?_, ?_, hmade⟩
      · simp [act, hentries]
      · intro entry hentry
        rcases List.mem_append.mp hentry with hold | hnew
        · exact hafter entry hold
        · rw [List.mem_singleton.mp hnew]
          rfl
  | barrier context =>
      have hnone : reached.2 = [] := hfirst
      rw [act, List.append_nil, hnone] at hlast
      cases hlast
  | elsewhere call =>
      rw [act, List.append_nil] at hlast
      exact hheld last hlast
  | publish now =>
      have houtcome := publish_outcome X R debugAssertions ctx reached.1 now
      generalize act X R debugAssertions ctx reached.1 (.publish now) = done at hlast houtcome ⊢
      cases houtcome with
      | refused next hbase =>
          rw [List.append_nil] at hlast
          exact hheld last hlast
      | accepted next published isNew hbase hnumber hmade hpush =>
          rw [List.getLast?_concat] at hlast
          cases hlast
          refine ⟨_, _, [], rfl, ?_, hmade⟩
          intro entry hentry
          cases hentry

theorem held_along_run {start : PayloadJob Tx} {actions : List (Action Tx Db)}
    (h : Meets (act X R debugAssertions ctx) BarriersFirst start actions) :
    Held X R debugAssertions ctx (exec (act X R debugAssertions ctx) start actions) :=
  exec_invariant (Held X R debugAssertions ctx) (fun _ hlast => nomatch hlast)
    (fun _ _ hheld hfirst => held_act hheld hfirst) h

/-- What was published last is what the job returns, whatever has been staged
behind it. -/
theorem sealed_is_published (txHash : Tx → B256)
    (opBuilder : Db → OpPayloadBuilderCtx Tx → List (Recovered Tx) →
      Except String (BuildOutcomeKind (OpBuiltPayload Tx)))
    {start : PayloadJob Tx} {actions : List (Action Tx Db)}
    (hjob : Meets (act X R debugAssertions ctx) BarriersFirst start actions) {last : Published Tx}
    (hlast : last ∈ (exec (act X R debugAssertions ctx) start actions).2.getLast?)
    (provider : Db) :
    let entries := (exec (act X R debugAssertions ctx) start actions).1.entries
    buildPayload txHash opBuilder (payloadOf R ctx.block entries) provider =
        .ok last.builtPayload ∧
      X.blockHash last.builtPayload.block = last.flashblock.diff.blockHash ∧
      ∃ before staged, entries = before ++ .barrier ⟨some last.builtPayload⟩ :: staged ∧
        last.payload = payloadOf R ctx.block before ∧
        last.builtPayload.block.body.transactions =
          (before.flatMap fun entry => entry.checkpointOf.transactions).map (·.inner) := by
  obtain ⟨self, before, after, hentries, hafter, hmade⟩ := held_along_run hjob last hlast
  have hbarrier := latestBarrier_append_barrier before after ⟨some last.builtPayload⟩ hafter
  refine ⟨?_, ?_, before, after, hentries, hmade.spans, ?_⟩
  · rw [hentries]
    simp only [buildPayload, payloadOf, hbarrier, Option.bind_some]
  · obtain ⟨now, hflashblock⟩ := hmade.flashblock
    rw [hflashblock]
    rfl
  · rw [(body_of_built hmade.built).1]
    simp only [payloadOf, List.flatMap_map]

/-! The prologue's barrier, one flashblock, and a transaction left behind. -/

def sampleActions : List (Action SampleTx SampleDb) :=
  [.add (sampleCheckpoint 0), .barrier {}, .publish 0, .add (sampleCheckpoint 1)]

def sampleJobRun : PayloadJob SampleTx × List (Published SampleTx) :=
  exec (act sample sampleExt false sampleJob) (begin sampleJob ⟨.new none, 0, none⟩) sampleActions

def sampleOpBuilder (_ : SampleDb) (_ : OpPayloadBuilderCtx SampleTx)
    (_ : List (Recovered SampleTx)) : Except String (BuildOutcomeKind (OpBuiltPayload SampleTx)) :=
  .ok (.better (samplePayload (fun _ => none) []))

theorem sealed_is_published_one_left_behind : ∃ last ∈ sampleJobRun.2.getLast?,
    buildPayload (fun tx => .ofNat 256 tx.nonce.toNat) sampleOpBuilder
      (payloadOf sampleExt sampleBlock sampleJobRun.1.entries) sampleJob.provider =
        .ok last.builtPayload := by
  have hjob : Meets (act sample sampleExt false sampleJob) BarriersFirst
      (begin sampleJob ⟨.new none, 0, none⟩)
      ([] ++ [.add (sampleCheckpoint 0)] ++ [.barrier {}] ++ [.publish 0] ++
        [.add (sampleCheckpoint 1)]) := by
    refine (((Meets.nil.concat ?_).concat ?_).concat ?_).concat ?_
    · trivial
    · rfl
    · trivial
    · trivial
  have hlast : sampleJobRun.2.head (List.cons_ne_nil _ _) ∈ sampleJobRun.2.getLast? := rfl
  exact ⟨_, hlast, (sealed_is_published _ sampleOpBuilder hjob hlast sampleJob.provider).1⟩

end WorldChain.Step.Sealed
