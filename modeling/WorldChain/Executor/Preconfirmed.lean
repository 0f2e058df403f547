import WorldChain.Executor.Coupling
import WorldChain.Wire.Collection

/-! What a node that only follows pre-confirms: the block that the flashblocks it holds
execute to, one after the other. -/
namespace WorldChain.Executor.Preconfirmed
open Library.Fallible Library.Overlay Library.Runs Wire.Primitives Wire.Collection Deps.Revm
open Deps.Reth Deps.Calls Deps.Concrete
open Process Announced Coupling

variable {Tx Db Core : Type}

/-- The blocks that flashblocks build on. -/
structure Chain (Db : Type) where
  header : B256 → SealedHeader
  state : B256 → Db
  chainSpec : OpChainSpec

/-- A provider may lag behind the chain, but what it answers is of the chain. -/
structure Serves (chain : Chain Db) (provider : Provider Db) : Prop where
  header : ∀ attempt blockHash header,
    provider.sealedHeaderByHash attempt blockHash = .ok (some header) →
      header = chain.header blockHash
  state : ∀ blockHash state, provider.stateByBlockHash blockHash = .ok state →
    state = chain.state blockHash
  chainSpec : provider.chainSpec = chain.chainSpec

def Chain.provider (chain : Chain Db) : Provider Db where
  sealedHeaderByHash _ blockHash := .ok (some (chain.header blockHash))
  stateByBlockHash blockHash := .ok (chain.state blockHash)
  chainSpec := chain.chainSpec

variable (X : Crates Tx Db Core) (chain : Chain Db) (chainSpec : OpChainSpec)

def execute (base : ExecutionPayloadBaseV1) (committed : Option (OpBuiltPayload Tx))
    (flashblock : Flashblock) : Except Failure (Option (OpBuiltPayload Tx)) := do
  let attributes ← receivedAttributes X chainSpec base flashblock
  let args ← argsAt X chain.provider base committed attributes (chain.header base.parentHash)
  buildContents X base committed flashblock args

def executeAll (base : ExecutionPayloadBaseV1) (flashblocks : List Flashblock) :
    Except Failure (Option (OpBuiltPayload Tx)) :=
  flashblocks.foldlM (execute X chain chainSpec base) none

/-- The latest payload and the pending block are what the collection executes to. -/
def Executed (self : FlashblocksStateExecutor Tx) : Prop :=
  ∃ payload,
    executeAll X chain chainSpec self.inner.flashblocks.base self.inner.flashblocks.toList =
      .ok (some payload) ∧
    self.inner.latestPayload = some (payload, self.inner.flashblocks.last.flashblock.index) ∧
    self.pendingBlock = payload.executedBlock

def Follows : Call Tx Db → Prop
  | .publishBuiltPayload _ _ _ => False
  | .registerPayloadEvents => True
  | .processFlashblock provider spec _ _ => Serves chain provider ∧ spec = chainSpec

variable {X chain chainSpec}

theorem argsAt_serves {provider : Provider Db} (h : Serves chain provider)
    {base : ExecutionPayloadBaseV1} {committed : Option (OpBuiltPayload Tx)}
    {attributes : OpPayloadBuilderAttributes Tx} {header : SealedHeader} {args : BuildArgs Tx Db}
    (hargs : argsAt X provider base committed attributes header = .ok args) :
    argsAt X chain.provider base committed attributes header = .ok args := by
  unfold argsAt at hargs ⊢
  obtain ⟨state, hstate, hrest⟩ := bind_eq_ok.mp hargs
  rw [h.state _ _ (orError_eq_ok.mp hstate), h.chainSpec] at hrest
  exact hrest

/-- On any provider of the chain a flashblock is built as on the chain itself. -/
theorem buildArgs_execute {provider : Provider Db} (h : Serves chain provider) {fuel : Nat}
    {base : ExecutionPayloadBaseV1} {committed : Option (OpBuiltPayload Tx)}
    {flashblock : Flashblock} {args : BuildArgs Tx Db}
    (hargs : buildArgs X provider chainSpec fuel base committed flashblock = some (.ok args)) :
    execute X chain chainSpec base committed flashblock =
      buildContents X base committed flashblock args := by
  unfold buildArgs at hargs
  unfold execute
  cases hattributes : receivedAttributes X chainSpec base flashblock with
  | error e =>
      rw [hattributes] at hargs
      cases hargs
  | ok attributes =>
      rw [hattributes] at hargs
      obtain ⟨header, hheader, hat⟩ := Option.map_eq_some_iff.mp hargs
      obtain ⟨attempt, hanswer⟩ := fetchHeaderRetrying_eq_some hheader
      rw [h.header _ _ _ hanswer] at hat
      have hchain := argsAt_serves h hat
      simp only [bind, Except.bind, hchain]

theorem executeAll_nil (base : ExecutionPayloadBaseV1) :
    executeAll X chain chainSpec base [] = .ok none := rfl

theorem executeAll_concat {base : ExecutionPayloadBaseV1} {flashblocks : List Flashblock}
    {committed : Option (OpBuiltPayload Tx)}
    (h : executeAll X chain chainSpec base flashblocks = .ok committed) (flashblock : Flashblock) :
    executeAll X chain chainSpec base (flashblocks ++ [flashblock]) =
      execute X chain chainSpec base committed flashblock := by
  unfold executeAll at h ⊢
  rw [List.foldlM_append, h]
  change List.foldlM (execute X chain chainSpec base) committed [flashblock] = _
  rw [List.foldlM_cons]
  exact bind_pure _

theorem Executed.push {self : FlashblocksStateExecutor Tx} {isNew : Bool} {flashblock : Flashblock}
    {next : Flashblocks} {payload : OpBuiltPayload Tx} {provider : Provider Db} {fuel : Nat}
    {payloadEvents : Bool}
    (h : isNew = false → Executed X chain chainSpec self) (hserves : Serves chain provider)
    (hpush : self.inner.flashblocks.push flashblock = .ok (isNew, next))
    (hbuilds : Builds X provider chainSpec fuel (opened self isNew) isNew flashblock payload) :
    Executed X chain chainSpec
      ⟨⟨next, some (payload, flashblock.flashblock.index), payloadEvents⟩,
        payload.executedBlock⟩ := by
  obtain ⟨base, args, hbase, hargs, hcontents⟩ := hbuilds
  rw [← buildArgs_execute hserves hargs] at hcontents
  obtain ⟨hisNew, hlast, _, htoList⟩ := push_ok hpush
  have hpushed := push_base hpush
  refine ⟨payload, ?_, by rw [hlast], rfl⟩
  cases isNew with
  | true =>
      -- the flashblock is the first one, and its base that of the payload
      have hsome := hpushed.1.symm.trans (orPanic_eq_ok.mp hbase)
      cases hsome
      rw [htoList, ← hcontents]
      exact executeAll_concat (executeAll_nil _) flashblock
  | false =>
      obtain ⟨previous, hprevious, hlatest, _⟩ := h rfl
      have hsame : next.base = self.inner.flashblocks.base := hpushed
      cases hbase
      rw [htoList, hsame, ← hcontents]
      simp only [opened, Bool.false_eq_true, ↓reduceIte, hlatest]
      exact executeAll_concat hprevious flashblock

theorem not_pushed_nil : ¬Pushed ([] : List (Event Tx)) := by
  rintro ⟨_, hmem⟩
  cases hmem

/-- The step lemma: after a push the node has executed what it holds. -/
theorem Executed.step {reached : FlashblocksStateExecutor Tx × List (Event Tx)}
    (h : Pushed reached.2 → Executed X chain chainSpec reached.1) {call : Call Tx Db}
    {debugAssertions : Bool} (hundisturbed : Undisturbed X debugAssertions reached call)
    (hfollows : Follows chain chainSpec call)
    (hpushed : Pushed reached.2 ∨ Pushed (step X debugAssertions reached.1 call).2) :
    Executed X chain chainSpec (step X debugAssertions reached.1 call).1 := by
  cases call with
  | publishBuiltPayload => exact hfollows.elim
  | registerPayloadEvents => exact h (hpushed.resolve_right not_pushed_nil)
  | processFlashblock provider spec fuel flashblock =>
      obtain ⟨hserves, rfl⟩ := hfollows
      obtain ⟨hopens, hfirst⟩ := hundisturbed
      simp only [Coupling.step] at hpushed ⊢
      cases hdone : processFlashblock X debugAssertions provider spec fuel reached.1 flashblock with
      | none =>
          rw [hdone] at hpushed
          exact h (hpushed.resolve_right not_pushed_nil)
      | some done =>
          rw [hdone] at hpushed
          cases processed hdone with
          | known payload hknown =>
              have hold := hpushed.resolve_right not_pushed_nil
              obtain ⟨latest, hexecuted, hlatest, _⟩ := h hold
              refine ⟨latest, hexecuted, hlatest, ?_⟩
              simp only [alreadyProcessed, hlatest] at hknown
              split at hknown
              · cases hknown
                rfl
              · cases hknown
          | refused e => exact h (hpushed.resolve_right not_pushed_nil)
          | failed isNew e events hunknown hisNew hfailed hevents =>
              have hold : Pushed reached.2 := by
                refine hpushed.resolve_right ?_
                rintro ⟨_, hmem⟩
                cases hevents _ hmem
              cases isNew with
              | false => exact h hold
              | true =>
                  obtain ⟨payload, hbuilds, hassertion⟩ := hopens hold hisNew
                    (Option.isSome_iff_exists.mpr ⟨_, hdone⟩)
                  obtain ⟨hdebug, hne⟩ := hfailed payload hbuilds
                  exact (hne (hassertion hdebug)).elim
          | installed isNew payload next hunknown hisNew hbuilds _ hpush =>
              apply Executed.push ?_ hserves hpush hbuilds
              rintro rfl
              by_cases hold : Pushed reached.2
              · exact h hold
              · exact (hfirst hold hisNew).elim

def Following (X : Crates Tx Db Core) (debugAssertions : Bool) (chain : Chain Db)
    (chainSpec : OpChainSpec) (reached : FlashblocksStateExecutor Tx × List (Event Tx))
    (call : Call Tx Db) : Prop :=
  Undisturbed X debugAssertions reached call ∧ Follows chain chainSpec call

/-- From any state on, a follower has executed what it holds, once it has opened a payload. -/
theorem executed_along_run {debugAssertions : Bool} {executor : FlashblocksStateExecutor Tx}
    {calls : List (Call Tx Db)}
    (h : Meets (step X debugAssertions) (Following X debugAssertions chain chainSpec) executor calls)
    (hpushed : Pushed (exec (step X debugAssertions) executor calls).2) :
    Executed X chain chainSpec (exec (step X debugAssertions) executor calls).1 := by
  revert hpushed
  apply exec_invariant (fun reached => Pushed reached.2 → Executed X chain chainSpec reached.1)
    ?_ ?_ h
  · intro hpushed
    exact (not_pushed_nil hpushed).elim
  · intro reached call hreached hfollowing hpushed
    exact Executed.step hreached hfollowing.1 hfollowing.2 ((pushed_append _ _).mp hpushed)

theorem step_flashblocks {debugAssertions : Bool} {self : FlashblocksStateExecutor Tx}
    {call : Call Tx Db} (h : ¬Pushed (step X debugAssertions self call).2) :
    (step X debugAssertions self call).1.inner.flashblocks = self.inner.flashblocks := by
  cases call with
  | registerPayloadEvents => rfl
  | publishBuiltPayload payload builtPayload id_eq =>
      simp only [Coupling.step] at h ⊢
      rcases publishBuiltPayload_cases self payload builtPayload with
        ⟨e, heq⟩ | ⟨isNew, next, _, heq⟩
      · rw [heq]
      · rw [heq] at h
        exact (h ⟨_, List.mem_cons_self⟩).elim
  | processFlashblock provider spec fuel flashblock =>
      simp only [Coupling.step] at h ⊢
      cases hdone : processFlashblock X debugAssertions provider spec fuel self flashblock with
      | none => rfl
      | some done =>
          rw [hdone] at h
          cases processed hdone with
          | known => rfl
          | refused => rfl
          | failed isNew => exact opened_flashblocks self isNew
          | installed =>
              exact (h ⟨_, List.mem_cons_of_mem _ List.mem_cons_self⟩).elim

def sampleChain : Chain SampleDb where
  header blockHash := ⟨sampleHeader, blockHash⟩
  state _ := {}
  chainSpec := sampleChainSpec

theorem sampleChain_serves : Serves sampleChain sampleProvider where
  header := by
    intro _ blockHash _ h
    simp only [sampleProvider] at h
    split at h
    next heq =>
      subst heq
      cases h
      rfl
    next => cases h
  state := by
    intro blockHash _ h
    simp only [sampleProvider] at h
    split at h
    next =>
      cases h
      rfl
    next => cases h
  chainSpec := rfl

end WorldChain.Executor.Preconfirmed
