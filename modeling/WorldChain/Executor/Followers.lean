import WorldChain.Executor.Agreement
import WorldChain.Executor.Preconfirmed

/-! Followers in a network: what two of them pre-confirm. -/
namespace WorldChain.Executor.Followers
open Library.Broadcast Library.Overlay Library.Runs Wire.Primitives Wire.Message Wire.Alloy
open Deps.Reth Deps.Calls Deps.Concrete P2p.Lagging P2p.Honest
open Process Announced Coupling Agreement Preconfirmed

variable {ι Tx Db Core : Type} [DecidableEq ι]

def callOf (capacity : Nat) (self : Cluster ι Tx) :
    Agreement.Event ι Tx Db → Option (ι × Call Tx Db)
  | .publishBuiltPayload node _ payload builtPayload id_eq =>
      some (node, .publishBuiltPayload payload builtPayload id_eq)
  | .registerPayloadEvents node => some (node, .registerPayloadEvents)
  | .outbound _ _ | .inbound _ _ _ | .deliver _ _ => none
  | .process node provider chainSpec fuel =>
      match ((self.streams node).pollNext capacity).2 with
      | .item flashblock => some (node, .processFlashblock provider chainSpec fuel ⟨flashblock⟩)
      | .pending | .ended => none

def eventsOf (node : ι) (outputs : List (Output ι Tx)) : List (Process.Event Tx) :=
  outputs.filterMap fun output => if output.1 = node then some output.2 else none

def executorAt (node : ι) (reached : Cluster ι Tx × List (Output ι Tx)) :
    FlashblocksStateExecutor Tx × List (Process.Event Tx) :=
  (reached.1.executors node, eventsOf node reached.2)

/-- The node does not build, and nothing disturbs it. -/
def FollowingAt (X : Crates Tx Db Core) (debugAssertions : Bool) (capacity : Nat)
    (chain : Chain Db) (chainSpec : OpChainSpec) (node : ι)
    (reached : Cluster ι Tx × List (Output ι Tx)) (event : Agreement.Event ι Tx Db) : Prop :=
  ∀ call, callOf capacity reached.1 event = some (node, call) →
    Following X debugAssertions chain chainSpec (executorAt node reached) call

variable {X : Crates Tx Db Core} {debugAssertions : Bool} {capacity : Nat}
variable {D : Codecs FlashblockMetadata} {linked : ι → ι → Bool} {chain : Chain Db}
variable {chainSpec : OpChainSpec}

theorem eventsOf_append (node : ι) (left right : List (Output ι Tx)) :
    eventsOf node (left ++ right) = eventsOf node left ++ eventsOf node right :=
  List.filterMap_append

theorem eventsOf_own (node : ι) (events : List (Process.Event Tx)) :
    eventsOf node (events.map fun event => (node, event)) = events := by
  simp [eventsOf, List.filterMap_map]

theorem eventsOf_other {node other : ι} (hne : other ≠ node) (events : List (Process.Event Tx)) :
    eventsOf node (events.map fun event => (other, event)) = [] := by
  simp [eventsOf, List.filterMap_map, hne]

/-- A node takes part in a step by its own call, or not at all. -/
theorem step_at (self : Cluster ι Tx) (event : Agreement.Event ι Tx Db) (node : ι) :
    (∃ call, callOf capacity self event = some (node, call) ∧
        executorAt node (self.step X debugAssertions capacity D linked event) =
          Coupling.step X debugAssertions (self.executors node) call) ∨
      executorAt node (self.step X debugAssertions capacity D linked event) = (self.executors node, []) := by
  cases event with
  | publishBuiltPayload other now payload builtPayload id_eq =>
      by_cases heq : other = node
      · subst heq
        refine .inl ⟨_, rfl, Prod.ext ?_ (eventsOf_own _ _)⟩
        simp [executorAt, Cluster.step, Cluster.exchange, Cluster.setExecutor, Coupling.step]
      · refine .inr (Prod.ext ?_ (eventsOf_other heq _))
        simp [executorAt, Cluster.step, Cluster.exchange, Cluster.setExecutor, Ne.symm heq]
  | registerPayloadEvents other =>
      by_cases heq : other = node
      · subst heq
        refine .inl ⟨_, rfl, Prod.ext ?_ rfl⟩
        simp [executorAt, Cluster.step, Cluster.setExecutor, Coupling.step]
      · refine .inr (Prod.ext ?_ rfl)
        simp [executorAt, Cluster.step, Cluster.setExecutor, Ne.symm heq]
  | outbound => exact .inr rfl
  | inbound => exact .inr rfl
  | deliver => exact .inr rfl
  | process other provider spec fuel =>
      unfold callOf Cluster.step
      dsimp only
      cases hpolled : ((self.streams other).pollNext capacity).2 with
      | pending => exact .inr rfl
      | ended => exact .inr rfl
      | item flashblock =>
          dsimp only
          by_cases heq : other = node
          · subst heq
            refine .inl ⟨_, rfl, ?_⟩
            cases hdone : processFlashblock X debugAssertions provider spec fuel
                (self.executors other) ⟨flashblock⟩ with
            | none => simp [executorAt, Coupling.step, hdone, eventsOf]
            | some done =>
                simp [executorAt, Coupling.step, hdone, eventsOf_own, Cluster.setExecutor,
                  Cluster.setStream]
          · right
            cases hdone : processFlashblock X debugAssertions provider spec fuel
                (self.executors other) ⟨flashblock⟩ with
            | none => rfl
            | some done =>
                simp [executorAt, eventsOf_other heq, Cluster.setExecutor, Cluster.setStream,
                  Ne.symm heq]

/-- Before its first push a node has the default collection, after it the payload of what
it holds. -/
structure UpToDate (X : Crates Tx Db Core) (chain : Chain Db) (chainSpec : OpChainSpec)
    (reached : FlashblocksStateExecutor Tx × List (Process.Event Tx)) : Prop where
  pushed : Pushed reached.2 → Executed X chain chainSpec reached.1
  before : ¬Pushed reached.2 → reached.1.inner.flashblocks = .default

theorem upToDate_new (pendingBlock : Option (BuiltPayloadExecutedBlock Tx)) :
    UpToDate X chain chainSpec (.new pendingBlock, []) where
  pushed hpushed := (not_pushed_nil hpushed).elim
  before _ := rfl

theorem UpToDate.step {reached : FlashblocksStateExecutor Tx × List (Process.Event Tx)}
    (h : UpToDate X chain chainSpec reached) {call : Call Tx Db}
    (hfollowing : Following X debugAssertions chain chainSpec reached call) :
    UpToDate X chain chainSpec ((Coupling.step X debugAssertions reached.1 call).1,
      reached.2 ++ (Coupling.step X debugAssertions reached.1 call).2) where
  pushed hpushed :=
    Executed.step h.pushed hfollowing.1 hfollowing.2 ((pushed_append _ _).mp hpushed)
  before hnone := by
    rw [pushed_append, not_or] at hnone
    rw [step_flashblocks hnone.2]
    exact h.before hnone.1

/-- A follower is up to date throughout, whatever the other nodes do. -/
theorem upToDate_run {pendingBlocks : ι → Option (BuiltPayloadExecutedBlock Tx)}
    {run : List (Agreement.Event ι Tx Db)} {node : ι}
    (h : Meets (Cluster.step X debugAssertions capacity D linked)
      (FollowingAt X debugAssertions capacity chain chainSpec node) (.new pendingBlocks) run) :
    UpToDate X chain chainSpec (executorAt node
      (exec (Cluster.step X debugAssertions capacity D linked) (.new pendingBlocks) run)) := by
  apply exec_invariant (fun reached => UpToDate X chain chainSpec (executorAt node reached)) ?_ ?_ h
  · exact upToDate_new (pendingBlocks node)
  · intro reached event hold hfollowing
    have hafter : executorAt node
        ((reached.1.step X debugAssertions capacity D linked event).1,
          reached.2 ++ (reached.1.step X debugAssertions capacity D linked event).2) =
        ((executorAt node (reached.1.step X debugAssertions capacity D linked event)).1,
          eventsOf node reached.2 ++
            (executorAt node (reached.1.step X debugAssertions capacity D linked event)).2) :=
      Prod.ext rfl (eventsOf_append node _ _)
    rw [hafter]
    rcases @step_at _ _ _ _ _ X debugAssertions capacity D linked reached.1 event node with
      ⟨call, hcall, hstep⟩ | hquiet
    · rw [hstep]
      exact hold.step (hfollowing call hcall)
    · rw [hquiet, List.append_nil]
      exact hold

theorem UpToDate.executed {reached : FlashblocksStateExecutor Tx × List (Process.Event Tx)}
    (h : UpToDate X chain chainSpec reached)
    (hzero : reached.1.inner.flashblocks.payloadId ≠ 0) : Executed X chain chainSpec reached.1 := by
  apply h.pushed
  by_contra hnone
  rw [h.before hnone] at hzero
  exact hzero rfl

theorem Executed.same {self other : FlashblocksStateExecutor Tx}
    (hself : Executed X chain chainSpec self) (hother : Executed X chain chainSpec other)
    (h : self.inner.flashblocks = other.inner.flashblocks) :
    self.inner.latestPayload = other.inner.latestPayload ∧
      self.pendingBlock = other.pendingBlock := by
  obtain ⟨payload, hall, hlatest, hpending⟩ := hself
  obtain ⟨payload', hall', hlatest', hpending'⟩ := hother
  rw [← h] at hall' hlatest'
  have hsame := hall.symm.trans hall'
  cases hsame
  exact ⟨hlatest.trans hlatest'.symm, hpending.trans hpending'.symm⟩

/-- Followers agree on what they pre-confirm: two of them with as many flashblocks of one
payload have the same payload and the same pending block, whatever each of them has received
before and in which order, and however the network has delivered it. -/
theorem same_preconfirmation (hD : D.Lawful) (X : Crates Tx Db Core) (debugAssertions : Bool)
    (capacity : Nat) (linked : ι → ι → Bool) (chain : Chain Db) (chainSpec : OpChainSpec)
    (pendingBlocks : ι → Option (BuiltPayloadExecutedBlock Tx))
    (run : List (Agreement.Event ι Tx Db)) (n m : ι)
    (hn : Meets (Cluster.step X debugAssertions capacity D linked)
      (FollowingAt X debugAssertions capacity chain chainSpec n) (.new pendingBlocks) run)
    (hm : Meets (Cluster.step X debugAssertions capacity D linked)
      (FollowingAt X debugAssertions capacity chain chainSpec m) (.new pendingBlocks) run) :
    let reached := exec (Cluster.step X debugAssertions capacity D linked) (.new pendingBlocks) run
    OneContent (published reached.2) →
      (reached.1.flashblocks n).payloadId = (reached.1.flashblocks m).payloadId →
      (reached.1.flashblocks n).payloadId ≠ 0 →
      (reached.1.flashblocks n).toList.length = (reached.1.flashblocks m).toList.length →
      (reached.1.executors n).inner.latestPayload = (reached.1.executors m).inner.latestPayload ∧
        (reached.1.executors n).pendingBlock = (reached.1.executors m).pendingBlock := by
  intro reached hone hid hzero hlength
  obtain ⟨events, h⟩ := @followed_run _ _ _ _ _ X debugAssertions capacity D hD linked pendingBlocks
    run
  have hlist : (reached.1.flashblocks n).toList = (reached.1.flashblocks m).toList := by
    rcases h.agree hone hid hzero with hbefore | hbefore
    · exact hbefore.eq_of_length hlength
    · exact (hbefore.eq_of_length hlength.symm).symm
  have hcollection : reached.1.flashblocks n = reached.1.flashblocks m := Flashblocks.ext hlist
  exact Executed.same ((upToDate_run hn).executed hzero)
    ((upToDate_run hm).executed (hid ▸ hzero)) hcollection

def elsewhere (node : ι) : Agreement.Event ι Tx Db → Bool
  | .publishBuiltPayload other _ _ _ _ | .registerPayloadEvents other | .process other _ _ _ =>
      other ≠ node
  | .outbound _ _ | .inbound _ _ _ | .deliver _ _ => true

theorem followingAt_elsewhere {node : ι} {event : Agreement.Event ι Tx Db}
    (h : elsewhere node event) (reached : Cluster ι Tx × List (Output ι Tx)) :
    FollowingAt X debugAssertions capacity chain chainSpec node reached event := by
  intro call hcall
  cases event with
  | outbound => cases hcall
  | inbound => cases hcall
  | deliver => cases hcall
  | publishBuiltPayload =>
      cases hcall
      simp [elsewhere] at h
  | registerPayloadEvents =>
      cases hcall
      simp [elsewhere] at h
  | process =>
      unfold callOf at hcall
      dsimp only at hcall
      split at hcall
      · cases hcall
        simp [elsewhere] at h
      · cases hcall
      · cases hcall

def sent (publisher node : ι) : List (Agreement.Event ι SampleTx SampleDb) :=
  [.outbound publisher node, .deliver publisher node, .outbound node publisher,
    .inbound node publisher 21]

def built (publisher : ι) : Agreement.Event ι SampleTx SampleDb :=
  .publishBuiltPayload publisher 20 (opens 1 12 []).flashblock (samplePayload blank [])
    samplePayload_id

def handled (node : ι) : Agreement.Event ι SampleTx SampleDb :=
  .process node sampleProvider sampleChainSpec 1

theorem followingAt_handled (flashblock : Flashblock) {node : ι}
    {reached : Cluster ι SampleTx × List (Output ι SampleTx)}
    (hpolled : ((reached.1.streams node).pollNext 100).2 = .item flashblock.flashblock)
    (hfirst : (eventsOf node reached.2).isEmpty)
    (hopens : (reached.1.flashblocks node).isNewPayload flashblock ≠ .ok false) :
    FollowingAt sample false 100 sampleChain sampleChainSpec node reached (handled node) := by
  intro call hcall
  simp only [callOf, handled, hpolled] at hcall
  cases hcall
  refine ⟨⟨?_, fun _ => hopens⟩, sampleChain_serves, rfl⟩
  intro hpushed
  simp only [executorAt, List.isEmpty_iff.mp hfirst] at hpushed
  exact (not_pushed_nil hpushed).elim

theorem same_preconfirmation_two_followers :
    let reached := exec (Cluster.step sample false 100 sampleCodecs fun n m : Fin 3 => n ≠ m)
      (.new fun _ => none) (built 0 :: sent 0 1 ++ [handled 1] ++ (sent 0 2 ++ [handled 2]))
    (reached.1.executors 1).inner.latestPayload = (reached.1.executors 2).inner.latestPayload ∧
      (reached.1.executors 1).pendingBlock = (reached.1.executors 2).pendingBlock := by
  have hfirst : Meets (Cluster.step sample false 100 sampleCodecs fun n m : Fin 3 => n ≠ m)
      (FollowingAt sample false 100 sampleChain sampleChainSpec 1) (.new fun _ => none)
      (built 0 :: sent 0 1 ++ [handled 1] ++ (sent 0 2 ++ [handled 2])) := by
    apply Meets.append
    · apply Meets.concat
      · apply Meets.of_forall
        exact fun event hevent => followingAt_elsewhere (List.all_eq_true.mp rfl event hevent)
      · exact followingAt_handled (opens 1 12 []) (by decide +kernel) (by decide +kernel)
          (by decide +kernel)
    · exact fun event hevent => followingAt_elsewhere (List.all_eq_true.mp rfl event hevent)
  have hsecond : Meets (Cluster.step sample false 100 sampleCodecs fun n m : Fin 3 => n ≠ m)
      (FollowingAt sample false 100 sampleChain sampleChainSpec 2) (.new fun _ => none)
      ((built 0 :: sent 0 1 ++ [handled 1] ++ sent 0 2) ++ [handled 2]) := by
    apply Meets.concat
    · apply Meets.of_forall
      exact fun event hevent => followingAt_elsewhere (List.all_eq_true.mp rfl event hevent)
    · exact followingAt_handled (opens 1 12 []) (by decide +kernel) (by decide +kernel)
        (by decide +kernel)
  apply same_preconfirmation sample_lawful sample false 100 (fun n m : Fin 3 => n ≠ m) sampleChain
    sampleChainSpec (fun _ => none) _ 1 2 hfirst hsecond
  · unfold OneContent
    decide +kernel
  · decide +kernel
  · decide +kernel
  · decide +kernel

end WorldChain.Executor.Followers
