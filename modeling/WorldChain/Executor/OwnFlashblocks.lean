import WorldChain.Executor.Agreement

/-! A node's own flashblocks come back to it on its stream: they are not executed. -/
namespace WorldChain.Executor.OwnFlashblocks
open Library.Runs Wire.Primitives Wire.Message Wire.Alloy Deps.Reth Deps.Calls Deps.Concrete
open P2p.Publish P2p.Peers P2p.Lagging P2p.Provenance Process Announced Replay Agreement

variable {ι Tx Db Core : Type}

/-- A base timestamp for each payload, and none of them payload 0, which the executors
start with. -/
def Dated (timestamp : PayloadId → UInt64) (calls : List (ι × FlashblocksPayload)) : Prop :=
  ∀ call ∈ calls, call.2.payloadId ≠ 0 ∧
    (call.2.index = 0 → ∀ base ∈ call.2.base, base.timestamp = timestamp call.2.payloadId)

structure Behind (timestamp : PayloadId → UInt64) (outputs : List (Output ι Tx))
    (cluster : Cluster ι Tx) : Prop where
  follows : ∀ n, Follows timestamp (cluster.executors n).inner
  passed : ∀ call ∈ published outputs, Passed timestamp ⟨call.2⟩ (cluster.executors call.1).inner

variable {X : Crates Tx Db Core} {debugAssertions : Bool} {capacity : Nat}
variable {D : Codecs FlashblockMetadata} {linked : ι → ι → Bool} {timestamp : PayloadId → UInt64}
variable {outputs : List (Output ι Tx)} {self : Cluster ι Tx}

theorem Dated.of_append {left right : List (ι × FlashblocksPayload)}
    (h : Dated timestamp (left ++ right)) : Dated timestamp left :=
  fun call hcall => h call (List.mem_append_left _ hcall)

theorem regular_of_published {calls : List (ι × FlashblocksPayload)} (hdated : Dated timestamp calls)
    {call : Coupling.Call Tx Db}
    (hcalls : ∀ fb ∈ delivered call, ∃ given ∈ calls, given.2 = fb.flashblock)
    (executor : FlashblocksStateExecutor Tx) :
    SameTimestamps timestamp [call] ∧ OpensFirst (executor, []) call := by
  constructor
  · intro other hmem fb hfb hindex base hbase
    rw [List.mem_singleton.mp hmem] at hfb
    obtain ⟨given, hgiven, heq⟩ := hcalls fb hfb
    have htimestamp := (hdated given hgiven).2
    rw [heq] at htimestamp
    exact htimestamp hindex base hbase
  · intro _ fb hfb hcontinues
    obtain ⟨given, hgiven, heq⟩ := hcalls fb hfb
    have hzero := (hdated given hgiven).1
    rw [heq] at hzero
    exact hzero (isNewPayload_false hcontinues).1

variable [DecidableEq ι]

omit [DecidableEq ι] in
theorem behind_new (pendingBlocks : ι → Option (BuiltPayloadExecutedBlock Tx)) :
    Behind timestamp [] (Cluster.new pendingBlocks) where
  follows n := follows_start (pendingBlocks n)
  passed call hcall := by cases hcall

theorem Behind.perform (h : Behind timestamp outputs self) (node : ι) {call : Coupling.Call Tx Db}
    (hregular : SameTimestamps timestamp [call] ∧ OpensFirst (self.executors node, []) call) :
    Behind timestamp outputs
      (self.setExecutor node (perform X debugAssertions (self.executors node) call).1) where
  follows n := by
    unfold Cluster.setExecutor
    dsimp only
    split
    · exact (h.follows node).perform hregular.1 hregular.2
    · exact h.follows n
  passed given hgiven := by
    unfold Cluster.setExecutor
    dsimp only
    split
    · rename_i hnode
      have hpassed := h.passed given hgiven
      rw [hnode] at hpassed
      exact hpassed.perform hregular.1 hregular.2
    · exact h.passed given hgiven

omit [DecidableEq ι] in
theorem Behind.more (h : Behind timestamp outputs self) {next : Cluster ι Tx}
    (hexecutors : next.executors = self.executors) {more : List (Output ι Tx)}
    (hmore : ∀ call ∈ published more, Passed timestamp ⟨call.2⟩ (self.executors call.1).inner) :
    Behind timestamp (outputs ++ more) next where
  follows := hexecutors ▸ h.follows
  passed call hcall := by
    rw [published_append] at hcall
    rw [hexecutors]
    rcases List.mem_append.mp hcall with hold | hnew
    · exact h.passed call hold
    · exact hmore call hnew

omit [DecidableEq ι] in
theorem Behind.same (h : Behind timestamp outputs self) {next : Cluster ι Tx}
    (hexecutors : next.executors = self.executors) : Behind timestamp (outputs ++ []) next :=
  h.more hexecutors nofun

theorem Behind.step (hD : D.Lawful) {events : List (P2p.Peers.Event ι)}
    (hfollowed : Followed D linked events outputs self) (h : Behind timestamp outputs self)
    (event : Event ι Tx Db)
    (hdated : Dated timestamp
      (published (outputs ++ (self.step X debugAssertions capacity D linked event).2))) :
    Behind timestamp (outputs ++ (self.step X debugAssertions capacity D linked event).2)
      (self.step X debugAssertions capacity D linked event).1 := by
  cases event with
  | outbound node peer => exact h.same rfl
  | inbound node peer now => exact h.same rfl
  | deliver sender receiver => exact h.same rfl
  | registerPayloadEvents node =>
      have hregular := @regular_of_published _ _ _ timestamp _ hdated
        (.registerPayloadEvents : Coupling.Call Tx Db) (fun _ hfb => by cases hfb)
        (self.executors node)
      have hnext := @Behind.perform _ _ _ _ X debugAssertions _ _ _ _ h node _ hregular
      exact hnext.same rfl
  | publishBuiltPayload node now payload builtPayload id_eq =>
      rcases publishBuiltPayload_cases (self.executors node) payload builtPayload with
        ⟨e, heq⟩ | ⟨isNew, next, hpush, heq⟩
      · have hsame : (self.setExecutor node (self.executors node)).executors = self.executors := by
          funext n
          unfold Cluster.setExecutor
          dsimp only
          split
          · rename_i hn
            rw [hn]
          · rfl
        simp only [Cluster.step, heq]
        exact h.same hsame
      · simp only [Cluster.step, heq] at hdated ⊢
        have hregular := @regular_of_published _ _ _ timestamp _ hdated
          (.publishBuiltPayload payload builtPayload id_eq : Coupling.Call Tx Db)
          (fun fb hfb => by
            cases hfb
            rw [published_append]
            exact ⟨(node, payload), List.mem_append_right _ List.mem_cons_self, rfl⟩)
          (self.executors node)
        have hperform : Replay.perform X debugAssertions (self.executors node)
            (.publishBuiltPayload payload builtPayload id_eq : Coupling.Call Tx Db) =
              ((publishBuiltPayload (self.executors node) payload builtPayload).executor,
                [⟨some (.ok ()), [.push ⟨payload⟩, .publishNew payload]⟩]) := by
          simp only [Replay.perform, heq]
        have hnext := @Behind.perform _ _ _ _ X debugAssertions _ _ _ _ h node _ hregular
        have hsucceeds : Succeeds X debugAssertions (self.executors node)
            (.publishBuiltPayload payload builtPayload id_eq : Coupling.Call Tx Db) := by
          unfold Succeeds
          rw [hperform]
          exact ⟨_, List.mem_cons_self, rfl⟩
        have hpassed := @passed_of_succeeds _ _ _ X debugAssertions _ _ (h.follows node) _ hregular.1
          hregular.2 ⟨payload⟩ rfl hsucceeds
        rw [hperform, heq] at hnext hpassed
        refine hnext.more ?_ ?_
        · rfl
        · intro call hcall
          cases List.mem_singleton.mp hcall
          simpa [Cluster.setExecutor] using hpassed
  | process node provider chainSpec fuel =>
      simp only [Cluster.step] at hdated ⊢
      cases hitem : ((self.streams node).pollNext capacity).2 with
      | pending => exact h.same rfl
      | ended => exact h.same rfl
      | item flashblock =>
          cases hdone : processFlashblock X debugAssertions provider chainSpec fuel
              (self.executors node) ⟨flashblock⟩ with
          | none =>
              simp only [hdone]
              exact h.same rfl
          | some done =>
              simp only [hitem, hdone] at hdated ⊢
              have hregular := @regular_of_published _ _ _ timestamp _ hdated
                (.processFlashblock provider chainSpec fuel ⟨flashblock⟩ : Coupling.Call Tx Db)
                (fun fb hfb => by
                  cases hfb
                  obtain ⟨call, hcall, heq, _⟩ := hfollowed.item hD hitem
                  rw [published_append]
                  exact ⟨call, List.mem_append_left _ hcall, heq⟩)
                (self.executors node)
              have hperform : (Replay.perform X debugAssertions (self.executors node)
                  (.processFlashblock provider chainSpec fuel ⟨flashblock⟩)).1 = done.executor := by
                simp only [Replay.perform, hdone]
              have hnext := @Behind.perform _ _ _ _ X debugAssertions _ _ _ _ h node _ hregular
              rw [hperform] at hnext
              refine hnext.more ?_ ?_
              · rfl
              · intro call hcall
                rw [published_process hdone] at hcall
                cases hcall

theorem behind_run (hD : D.Lawful) (linked : ι → ι → Bool)
    (pendingBlocks : ι → Option (BuiltPayloadExecutedBlock Tx)) (run : List (Event ι Tx Db))
    (hdated : Dated timestamp (published
      (exec (Cluster.step X debugAssertions capacity D linked) (.new pendingBlocks) run).2)) :
    Behind timestamp
      (exec (Cluster.step X debugAssertions capacity D linked) (.new pendingBlocks) run).2
      (exec (Cluster.step X debugAssertions capacity D linked) (.new pendingBlocks) run).1 := by
  induction run using List.reverseRecOn with
  | nil => exact behind_new pendingBlocks
  | append_singleton run event ih =>
      rw [exec_concat] at hdated ⊢
      have hbefore := hdated
      rw [published_append] at hbefore
      obtain ⟨events, hfollowed⟩ := @followed_run _ _ _ _ _ X debugAssertions capacity D hD linked
        pendingBlocks run
      exact (ih hbefore.of_append).step hD hfollowed event hdated

theorem build_of_processed {provider : Provider Db} {chainSpec : OpChainSpec} {fuel : Nat}
    {executor : FlashblocksStateExecutor Tx} {flashblock fb : Flashblock} {done : Returned Tx}
    {latestPayload : Option (OpBuiltPayload Tx × UInt64)}
    (hdone : processFlashblock X debugAssertions provider chainSpec fuel executor flashblock =
      some done) (hbuild : .build fb latestPayload ∈ done.events) : fb = flashblock := by
  cases processed hdone with
  | known => cases hbuild
  | refused => cases hbuild
  | failed isNew e events hunknown hisNew hfailed hevents =>
      cases hevents _ hbuild
      rfl
  | installed isNew payload flashblocks =>
      rcases List.mem_cons.mp hbuild with heq | hrest
      · cases heq
        rfl
      · split at hrest <;> simp at hrest

/-- Whatever happens in the network, a node does not execute again what it has published
itself, though all of it comes back on its stream. -/
theorem own_not_executed (hD : D.Lawful) (X : Crates Tx Db Core) (debugAssertions : Bool)
    (capacity : Nat) (linked : ι → ι → Bool)
    (pendingBlocks : ι → Option (BuiltPayloadExecutedBlock Tx)) (timestamp : PayloadId → UInt64)
    (run : List (Event ι Tx Db)) (event : Event ι Tx Db) :
    let reached := exec (Cluster.step X debugAssertions capacity D linked) (.new pendingBlocks) run
    Dated timestamp (published reached.2) → ∀ n payload, (n, payload) ∈ published reached.2 →
      ∀ latestPayload, (n, .build ⟨payload⟩ latestPayload) ∉
        (reached.1.step X debugAssertions capacity D linked event).2 := by
  intro reached hdated n payload hown latestPayload hbuild
  have hpassed := (behind_run hD linked pendingBlocks run hdated).passed (n, payload) hown
  have htimestamp := (hdated (n, payload) hown).2
  cases event with
  | registerPayloadEvents node => cases hbuild
  | outbound node peer => cases hbuild
  | inbound node peer now => cases hbuild
  | deliver sender receiver => cases hbuild
  | publishBuiltPayload node now given builtPayload id_eq =>
      simp only [Cluster.step] at hbuild
      rcases publishBuiltPayload_cases (reached.1.executors node) given builtPayload with
        ⟨e, heq⟩ | ⟨isNew, next, hpush, heq⟩
      · simp [heq] at hbuild
      · simp [heq] at hbuild
  | process node provider chainSpec fuel =>
      simp only [Cluster.step] at hbuild
      cases hitem : ((reached.1.streams node).pollNext capacity).2 with
      | pending => simp [hitem] at hbuild
      | ended => simp [hitem] at hbuild
      | item flashblock =>
          cases hdone : processFlashblock X debugAssertions provider chainSpec fuel
              (reached.1.executors node) ⟨flashblock⟩ with
          | none => simp [hitem, hdone] at hbuild
          | some done =>
              simp only [hitem, hdone] at hbuild
              obtain ⟨built, hmem, heq⟩ := List.mem_map.mp hbuild
              cases heq
              cases build_of_processed hdone hmem
              -- a replay has no events
              obtain ⟨_, result, houtcome⟩ := @replay_effect _ _ _ X debugAssertions _ _ _ hpassed
                htimestamp provider chainSpec fuel
              have hperform : (Replay.perform X debugAssertions (reached.1.executors n)
                  (.processFlashblock provider chainSpec fuel ⟨payload⟩)).2 =
                    [⟨some done.result, done.events⟩] := by
                simp only [Replay.perform, hdone]
              have hsame := hperform.symm.trans houtcome
              rw [List.cons.injEq, Replay.Outcome.mk.injEq] at hsame
              rw [hsame.1.2] at hmem
              cases hmem

theorem own_not_executed_returned :
    ((0 : Fin 2), .build (opens 1 12 []) none) ∉
      ((exec (Cluster.step sample false 100 sampleCodecs fun n m : Fin 2 => n ≠ m)
        (.new fun _ => none) (followed 0 1)).1.step sample false 100 sampleCodecs (fun n m => n ≠ m)
        (.process 0 sampleProvider sampleChainSpec 1)).2 := by
  have hpublished : published (exec (Cluster.step sample false 100 sampleCodecs
      fun n m : Fin 2 => n ≠ m) (.new fun _ => none) (followed 0 1)).2 =
        [(0, (opens 1 12 []).flashblock)] := by
    decide +kernel
  apply own_not_executed sample_lawful sample false 100 (fun n m : Fin 2 => n ≠ m) (fun _ => none)
    clock (followed 0 1) (.process 0 sampleProvider sampleChainSpec 1)
  · rw [hpublished]
    intro call hcall
    cases List.mem_singleton.mp hcall
    refine ⟨by decide, ?_⟩
    intro _ base hbase
    cases hbase
    rfl
  · rw [hpublished]
    exact List.mem_cons_self

end WorldChain.Executor.OwnFlashblocks
