import WorldChain.Executor.Contents
import WorldChain.Executor.Followers
import WorldChain.Step.Rebuilt

/-! A follower against the node that builds: what it pre-confirms at any time is what
has been built for the last flashblock that it holds. -/
namespace WorldChain.Executor.Mirror
open Library.Fallible Library.Broadcast Library.Runs Wire.Primitives Wire.Message Wire.Alloy
open Deps.Revm Deps.Reth Deps.Calls Deps.Concrete P2p.Peers P2p.Honest
open Builder.Assemble Builder.Cut Step.Publish Step.SameHeader Step.Job Step.Sealed Step.Partition
open Step.Rebuilt Process Announced Agreement Preconfirmed Followers Contents

variable {ι Tx Db Core : Type} [DecidableEq ι]

def FromJob (job : List (Published Tx)) (id : PayloadId) (calls : List (ι × FlashblocksPayload)) :
    Prop :=
  ∀ call ∈ calls, call.2.payloadId = id → ∃ p ∈ job, p.flashblock.flashblock = call.2

/-- Bytes are decoded to the transactions of the job that they encode. -/
def Decodes (X : Crates Tx Db Core) (job : List (Published Tx)) : Prop :=
  ∀ p ∈ job, ∀ tx ∈ txsOf p.payload.history,
    X.decode2718Exact (X.encoded2718 tx.inner) = .ok tx.inner

variable {X : Crates Tx Db Core} {R : CheckpointExt Tx} {debugAssertions : Bool}
variable {ctx : StepContext Tx Db}

/-! The job, at each of its flashblocks. -/

theorem act_length (job : PayloadJob Tx) (action : Action Tx Db) :
    (act X R debugAssertions ctx job action).2.length ≤ 1 := by
  cases action with
  | add checkpoint => exact Nat.zero_le _
  | barrier context => exact Nat.zero_le _
  | elsewhere call => exact Nat.zero_le _
  | publish now =>
      have houtcome := publish_outcome X R debugAssertions ctx job now
      generalize act X R debugAssertions ctx job (.publish now) = done at houtcome ⊢
      cases houtcome with
      | refused => exact Nat.zero_le _
      | accepted => exact Nat.le_refl _

theorem partitioned_prefixes {start : PayloadJob Tx} {actions : List (Action Tx Db)}
    (h : Meets (act X R debugAssertions ctx) BarriersFirst start actions) (k : Nat) :
    let reached := exec (act X R debugAssertions ctx) start actions
    Partitioned X (reached.1, reached.2.take k) := by
  have hrun := exec_invariant (fun reached => Held X R debugAssertions ctx reached ∧
    ∀ k, Partitioned X (reached.1, reached.2.take k)) ⟨(fun _ hlast => nomatch hlast), ?_⟩ ?_ h
  · exact hrun.2 k
  · intro k _ last hlast
    rw [List.take_nil] at hlast
    cases hlast
  · intro reached action hreached hfirst
    refine ⟨held_act hreached.1 hfirst, fun k => ?_⟩
    rcases Nat.lt_or_ge reached.2.length k with hlt | hle
    · -- the flashblock of this action is the last one
      have hwhole := hreached.2 reached.2.length
      rw [List.take_length] at hwhole
      have hall := partitioned_act hreached.1 hwhole action
      have hlength := @act_length _ _ _ X R debugAssertions ctx reached.1 action
      rw [List.take_of_length_le (by rw [List.length_append]; omega)]
      exact hall
    · rw [List.take_append_of_le_length hle]
      exact hreached.2 k

theorem transactions_of_built {self : PublishFlashblock Tx} {actions : List (Action Tx Db)}
    {p : Published Tx}
    (hmem : p ∈ (exec (act X R debugAssertions ctx) (begin ctx self) actions).2) :
    p.builtPayload.block.body.transactions = (txsOf p.payload.history).map (·.inner) := by
  obtain ⟨_, _, _, hmade⟩ := (linked_along_run self actions).made p hmem
  have hbuilt := (body_of_built hmade.built).1
  rw [← hmade.spans] at hbuilt
  exact hbuilt

/-- Up to any of its flashblocks, a job has published what is in the payload built for it. -/
theorem decodeAll_job {self : PublishFlashblock Tx} {actions : List (Action Tx Db)}
    (h : Meets (act X R debugAssertions ctx) (AllAccepted X R debugAssertions ctx) (begin ctx self)
      actions) {before after : List (Published Tx)} {last : Published Tx}
    (hsplit : (exec (act X R debugAssertions ctx) (begin ctx self) actions).2 =
      before ++ last :: after)
    (hdecodes : Decodes X (exec (act X R debugAssertions ctx) (begin ctx self) actions).2) :
    decodeAll X ((before ++ [last]).map (·.flashblock)) =
      .ok last.builtPayload.block.body.transactions := by
  have hmem : last ∈ (exec (act X R debugAssertions ctx) (begin ctx self) actions).2 := by
    rw [hsplit]
    exact List.mem_append_right _ List.mem_cons_self
  have htake : (before ++ last :: after).take (before.length + 1) = before ++ [last] :=
    List.take_length_add_append 1
  have hindices := (counted_along_run h).indices
  have hpartitioned := partitioned_prefixes (meets_barriersFirst h) (before.length + 1)
  simp only [hsplit, htake] at hpartitioned
  have hindices : indices (before ++ [last]) = List.range (before ++ [last]).length := by
    rw [← htake, indices, List.map_take, ← hsplit, ← indices, hindices, List.take_range, hsplit]
    simp
  have htransactions := hpartitioned hindices last List.getLast?_concat
  rw [encodedTxs_eq, transactions] at htransactions
  rw [decodeAll, List.flatMap_map, htransactions, transactions_of_built hmem]
  exact mapM_map_ok (hdecodes last hmem)

/-! The follower. -/

variable {D : Codecs FlashblockMetadata} {linked : ι → ι → Bool}
variable {events : List (P2p.Peers.Event ι)} {outputs : List (Output ι Tx)} {cluster : Cluster ι Tx}

theorem held_of_job (h : Followed D linked events outputs cluster) {node : ι}
    {job : List (Published Tx)} (hindices : indices job = List.range job.length)
    (hjob : FromJob job (cluster.flashblocks node).payloadId (published outputs))
    (hzero : (cluster.flashblocks node).payloadId ≠ 0) :
    ∃ before last after, job = before ++ last :: after ∧
      (cluster.flashblocks node).toList = (before ++ [last]).map (·.flashblock) := by
  have hpos := List.length_pos_iff.mpr (cluster.flashblocks node).guaranteed.nonempty
  have hheld (i : Nat) (hi : i < (cluster.flashblocks node).toList.length) :
      ∃ hlt : i < job.length, (cluster.flashblocks node).toList[i] = job[i].flashblock := by
    obtain ⟨call, hcall, heq, hkey⟩ := h.collected hzero hi
    obtain ⟨p, hp, hpublished⟩ := hjob call hcall (congrArg Prod.fst hkey)
    obtain ⟨j, hj, rfl⟩ := List.getElem_of_mem hp
    have hindex : job[j].flashblock.flashblock.index.toNat = j := by
      have hat := List.getElem_of_eq hindices (by simpa [indices] using hj : j < _)
      simpa [indices] using hat
    have hown : call.2.index.toNat = i := congrArg Prod.snd hkey
    rw [hpublished, hown] at hindex
    subst hindex
    refine ⟨hj, ?_⟩
    rw [← hpublished] at heq
    exact congrArg Flashblock.mk heq.symm
  generalize (cluster.flashblocks node).toList = held at hheld hpos ⊢
  obtain ⟨hlt, _⟩ := hheld (held.length - 1) (by omega)
  have hlength : held.length - 1 + 1 = held.length := by omega
  refine ⟨job.take (held.length - 1), job[held.length - 1], job.drop (held.length - 1 + 1), ?_, ?_⟩
  · rw [← List.drop_eq_getElem_cons hlt, List.take_append_drop]
  · rw [List.take_append_getElem hlt, hlength]
    apply List.ext_getElem
    · simp only [List.length_map, List.length_take]
      omega
    · intro i hi _
      obtain ⟨_, hat⟩ := hheld i hi
      rw [hat, List.getElem_map, List.getElem_take]

/-- A follower pre-confirms the transactions of the block that is being built: while the job
publishes, and however the network delivers its flashblocks, the pending block lists what is in
the payload built for the last flashblock that the follower holds. -/
theorem mirrors_publisher (hD : D.Lawful) (hlaws : RecoverLaws X) (capacity : Nat)
    (linked : ι → ι → Bool) (chain : Chain Db) (chainSpec : OpChainSpec)
    (pendingBlocks : ι → Option (BuiltPayloadExecutedBlock Tx)) (self : PublishFlashblock Tx)
    (actions : List (Action Tx Db)) (run : List (Agreement.Event ι Tx Db)) (node : ι)
    (hjob : Meets (act X R debugAssertions ctx) (AllAccepted X R debugAssertions ctx)
      (begin ctx self) actions)
    (hfollows : Meets (Cluster.step X debugAssertions capacity D linked)
      (FollowingAt X debugAssertions capacity chain chainSpec node) (.new pendingBlocks) run) :
    let job := (exec (act X R debugAssertions ctx) (begin ctx self) actions).2
    let reached := exec (Cluster.step X debugAssertions capacity D linked) (.new pendingBlocks) run
    FromJob job (reached.1.flashblocks node).payloadId (published reached.2) → Decodes X job →
    (reached.1.flashblocks node).payloadId ≠ 0 →
      ∃ before last after, job = before ++ last :: after ∧
        (reached.1.flashblocks node).toList = (before ++ [last]).map (·.flashblock) ∧
        (reached.1.executors node).pendingBlock.map
            (fun executed => executed.recoveredBlock.block.body.transactions) =
          some last.builtPayload.block.body.transactions := by
  intro job reached hfrom hdecodes hzero
  obtain ⟨events, hfollowed⟩ := @followed_run _ _ _ _ _ X debugAssertions capacity D hD linked
    pendingBlocks run
  obtain ⟨before, last, after, hsplit, hheld⟩ :=
    held_of_job hfollowed (counted_along_run hjob).indices hfrom hzero
  refine ⟨before, last, after, hsplit, hheld, ?_⟩
  obtain ⟨payload, hall, _, hpending⟩ := (upToDate_run hfollows).executed hzero
  obtain ⟨_, _, _, hblock⟩ := blockOf_executeAll hlaws hall
  have htransactions := hblock.transactions
  change decodeAll X (reached.1.flashblocks node).toList = _ at htransactions
  rw [hheld, decodeAll_job hjob hsplit hdecodes] at htransactions
  change (reached.1.executors node).pendingBlock = _ at hpending
  obtain ⟨executed, honParent⟩ := onParent_of_executeAll hall
  rw [hpending, honParent.executedBlock, Option.map_some, honParent.block,
    Except.ok.inj htransactions]

/-! A job of two flashblocks of one transaction each, with the access list of the block. -/

def listedExt : CheckpointExt SampleTx where
  cumulativeDaFootprint _ := none
  alloyBal _ := [{ address := 1, nonceChanges := [⟨1, 1⟩, ⟨2, 2⟩] }, rootEntry]

def sampleRun : PayloadJob SampleTx × List (Published SampleTx) :=
  exec (act sample listedExt false sampleJob) (begin sampleJob ⟨.new none, 0, none⟩)
    [.add (sampleCheckpoint 0), .barrier {}, .publish 0, .add (sampleCheckpoint 1), .publish 1]

def firstPublished : Published SampleTx := sampleRun.2.head (List.cons_ne_nil _ _)

def secondPublished : Published SampleTx := sampleRun.2.getLast (List.cons_ne_nil _ _)

theorem sampleRun_accepted :
    Meets (act sample listedExt false sampleJob) (AllAccepted sample listedExt false sampleJob)
      (begin sampleJob ⟨.new none, 0, none⟩)
      ([] ++ [.add (sampleCheckpoint 0)] ++ [.barrier {}] ++ [.publish 0] ++
        [.add (sampleCheckpoint 1)] ++ [.publish 1]) := by
  refine ((((Meets.nil.concat ?_).concat ?_).concat ?_).concat ?_).concat ?_
  · exact ⟨trivial, trivial⟩
  · exact ⟨⟨rfl, rfl⟩, trivial⟩
  · exact ⟨trivial, List.cons_ne_nil _ _⟩
  · exact ⟨trivial, trivial⟩
  · exact ⟨trivial, List.cons_ne_nil _ _⟩

def handedOver (publisher node : ι) (p : Published SampleTx)
    (id_eq : p.builtPayload.id = p.flashblock.flashblock.payloadId) :
    List (Agreement.Event ι SampleTx SampleDb) :=
  .publishBuiltPayload publisher 20 p.flashblock.flashblock p.builtPayload id_eq ::
    sent publisher node

theorem followingAt_continues (flashblock : Flashblock) {node : ι}
    {reached : Cluster ι SampleTx × List (Output ι SampleTx)}
    (h : UpToDate sample sampleChain sampleChainSpec (executorAt node reached))
    (hpolled : ((reached.1.streams node).pollNext 100).2 = .item flashblock.flashblock)
    (hzero : (reached.1.flashblocks node).payloadId ≠ 0)
    (hcontinues : (reached.1.flashblocks node).isNewPayload flashblock ≠ .ok true) :
    FollowingAt sample false 100 sampleChain sampleChainSpec node reached (handled node) := by
  intro call hcall
  simp only [callOf, handled, hpolled] at hcall
  cases hcall
  refine ⟨⟨fun _ hnew => (hcontinues hnew).elim, ?_⟩, sampleChain_serves, rfl⟩
  intro hnone
  have hdefault : reached.1.flashblocks node = .default := h.before hnone
  rw [hdefault] at hzero
  exact (hzero rfl).elim

def followedRun (publisher node : ι) : List (Agreement.Event ι SampleTx SampleDb) :=
  handedOver publisher node firstPublished rfl ++ [handled node] ++
    handedOver publisher node secondPublished rfl

theorem mirrors_publisher_two_flashblocks :
    let reached := exec (Cluster.step sample false 100 sampleCodecs fun n m : Fin 2 => n ≠ m)
      (.new fun _ => none) (followedRun 0 1 ++ [handled 1])
    ∃ before last after, sampleRun.2 = before ++ last :: after ∧
      (reached.1.flashblocks 1).toList = (before ++ [last]).map (·.flashblock) ∧
      (reached.1.executors 1).pendingBlock.map
          (fun executed => executed.recoveredBlock.block.body.transactions) =
        some last.builtPayload.block.body.transactions := by
  have hfirst : Meets (Cluster.step sample false 100 sampleCodecs fun n m : Fin 2 => n ≠ m)
      (FollowingAt sample false 100 sampleChain sampleChainSpec 1) (.new fun _ => none)
      (followedRun 0 1) := by
    apply Meets.append
    · apply Meets.concat
      · apply Meets.of_forall
        exact fun event hevent => followingAt_elsewhere (List.all_eq_true.mp rfl event hevent)
      · exact followingAt_handled firstPublished.flashblock (by decide +kernel)
          (by decide +kernel) (by decide +kernel)
    · exact fun event hevent => followingAt_elsewhere (List.all_eq_true.mp rfl event hevent)
  have hboth := hfirst.concat (followingAt_continues secondPublished.flashblock
    (upToDate_run hfirst) (by decide +kernel) (by decide +kernel) (by decide +kernel))
  apply mirrors_publisher sample_lawful sample_recoverLaws 100 (fun n m : Fin 2 => n ≠ m)
    sampleChain sampleChainSpec (fun _ => none) ⟨.new none, 0, none⟩ _ _ 1 sampleRun_accepted hboth
  · unfold FromJob
    decide +kernel
  · unfold Decodes
    decide +kernel
  · decide +kernel

end WorldChain.Executor.Mirror
