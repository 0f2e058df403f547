import WorldChain.Executor.Replay
import WorldChain.Wire.Alloy

/-! Which received flashblocks panic the executor. -/
namespace WorldChain.Executor.Panics
open Library.Fallible Library.Overlay Library.Runs Wire.Primitives Wire.Message Wire.Alloy
open Deps.Revm Deps.Reth Deps.Calls Deps.Concrete Builder.Build Builder.Assemble
open Builder.Sequential Builder.Outcome
open Process Announced Coupling Replay

variable {Tx Db Core : Type}

def IsPanic (e : Failure) : Prop := ∃ message, e = .panic message

def Readable (X : Crates Tx Db Core) (list : BlockAccessList) : Prop :=
  ∀ alloyAcc ∈ list, (X.tryFromAlloy alloyAcc).isSome

/-- What the expectations of the program rest on: revm writes bytecodes to a list
and does not execute a transaction below the base fee, and the extra data is a
version and two words of four bytes. -/
structure Expected (X : Crates Tx Db Core) : Prop where
  intoAlloyBal : ∀ bal, Readable X (X.intoAlloyBal bal)
  transact : ∀ evmEnv tx read executed, X.transact evmEnv tx read = .ok executed →
    X.isDeposit tx.inner = false →
      (X.effectiveTipPerGas tx.inner evmEnv.blockEnv.basefee).isSome
  encodeHoloceneExtraData : ∀ params extraData,
    X.encodeHoloceneExtraData 0 params = .ok extraData → extraData.length = 9

structure Started (X : Crates Tx Db Core) (provider : Provider Db) (chainSpec : OpChainSpec)
    (fuel : Nat) (executor : FlashblocksStateExecutor Tx) (flashblock : Flashblock) (isNew : Bool)
    (base : ExecutionPayloadBaseV1) (args : BuildArgs Tx Db) : Prop where
  unknown : alreadyProcessed executor.inner flashblock = none
  isNew_eq : executor.inner.flashblocks.isNewPayload flashblock = .ok isNew
  base_eq : baseOf (opened executor isNew) isNew flashblock = .ok base
  args_eq : buildArgs X provider chainSpec fuel base
    ((opened executor isNew).inner.latestPayload.map Prod.fst) flashblock = some (.ok args)

/-- If the call gets as far as the access list of the flashblock, the list is
readable, and if there are debug assertions, what it builds is announced. -/
structure Harmless (X : Crates Tx Db Core) (debugAssertions : Bool) (provider : Provider Db)
    (chainSpec : OpChainSpec) (fuel : Nat) (executor : FlashblocksStateExecutor Tx)
    (flashblock : Flashblock) : Prop where
  readable : ∀ isNew base args committed,
    Started X provider chainSpec fuel executor flashblock isNew base args →
      loadCommitted X ((opened executor isNew).inner.latestPayload.map Prod.fst) = .ok committed →
        ∀ list ∈ flashblock.diff.blockAccessList, Readable X list
  announced : debugAssertions → ∀ payload,
    FreshlyBuilt X provider chainSpec fuel executor flashblock payload →
      X.blockHash payload.block = flashblock.diff.blockHash

variable {X : Crates Tx Db Core}

theorem orError_avoids {α : Type} (x : Except String α) : Avoids IsPanic (orError x) :=
  avoids_mapError (fun _ ⟨_, h⟩ => by cases h) x

theorem error_avoids {α : Type} (message : String) :
    Avoids IsPanic (.error (.error message) : Except Failure α) := by
  simp [IsPanic]

/-! The access lists. -/

theorem orPanic_isOk {α : Type} (message : String) (x : Option α) :
    (orPanic message x).isOk = x.isSome := by
  cases x <;> rfl

theorem loadBal_avoids_iff (list : BlockAccessList) :
    Avoids IsPanic (loadBal X list) ↔ Readable X list := by
  unfold loadBal Readable
  rw [avoids_bind_iff, avoids_mapM_iff]
  · simp only [orPanic_isOk, and_iff_left_iff_imp]
    exact fun _ _ _ => avoids_ok _
  · intro alloyAcc e h
    cases hacc : X.tryFromAlloy alloyAcc with
    | none =>
        rw [hacc] at h
        cases h
        exact ⟨_, rfl⟩
    | some acc =>
        rw [hacc] at h
        cases h

theorem loadBal_of_readable {list : BlockAccessList} (h : Readable X list) :
    ∃ bal, loadBal X list = .ok bal := by
  have hok : ∀ alloyAcc ∈ list,
      (orPanic "it should not fail here" (X.tryFromAlloy alloyAcc)).isOk := by
    intro alloyAcc hmem
    rw [orPanic_isOk]
    exact h alloyAcc hmem
  obtain ⟨accounts, haccounts⟩ := mapM_isOk hok
  exact ⟨_, bind_eq_ok.mpr ⟨accounts, haccounts, rfl⟩⟩

theorem initialBalBuilder_of_readable {committed : Committed Tx}
    (h : ∀ list ∈ committed.previousBal, Readable X list) :
    ∃ balBuilder, initialBalBuilder X committed = .ok balBuilder := by
  unfold initialBalBuilder
  cases hprevious : committed.previousBal with
  | none => exact ⟨{}, rfl⟩
  | some list => exact loadBal_of_readable (h list hprevious)

theorem initialBalState_avoids_iff {committed : Committed Tx}
    (h : ∀ list ∈ committed.previousBal, Readable X list) (bal : Option BlockAccessList) :
    Avoids IsPanic (initialBalState X committed bal) ↔ ∀ list ∈ bal, Readable X list := by
  obtain ⟨balBuilder, hbalBuilder⟩ := initialBalBuilder_of_readable h
  unfold initialBalState
  rw [avoids_bind_iff, hbalBuilder]
  simp only [avoids_ok, Except.ok.injEq, forall_eq', true_and]
  cases bal with
  | none => simp [pure, Except.pure]
  | some list =>
      dsimp only
      rw [avoids_bind_iff, loadBal_avoids_iff]
      simp [pure, Except.pure]

/-! The build. -/

theorem recover_avoids (tx : Tx) (message : String → String) :
    Avoids IsPanic (recover X tx message) := by
  unfold recover
  cases X.tryIntoRecovered tx with
  | ok recovered => exact avoids_ok recovered
  | error shown => exact error_avoids _

theorem loadCommitted_avoids (payload : Option (OpBuiltPayload Tx)) :
    Avoids IsPanic (loadCommitted X payload) := by
  unfold loadCommitted
  cases payload with
  | none => exact avoids_ok _
  | some payload =>
      dsimp only
      cases payload.executedBlock with
      | none => exact error_avoids _
      | some executed =>
          exact (avoids_mapM fun tx _ => recover_avoids tx _).bind_pure _

theorem blockBuilder_avoids (ctx : OpPayloadBuilderCtx Tx) (committed : Committed Tx) :
    Avoids IsPanic (blockBuilder X ctx committed) := by
  unfold blockBuilder nextBlockExtraData
  apply Avoids.bind
  · split
    · exact orError_avoids _
    · exact avoids_ok _
  · intro extraData _
    refine (orError_avoids _).bind fun evmEnv _ => ?_
    exact (orError_avoids _).bind_pure _

theorem prepareState_avoids (ctx : OpPayloadBuilderCtx Tx) (committed : Committed Tx)
    (state : State Core) : Avoids IsPanic (prepareState X ctx committed state) := by
  refine (blockBuilder_avoids ctx committed).bind fun builder _ => ?_
  split
  · apply Avoids.bind_pure
    exact (orError_avoids _).bind_pure _
  · exact avoids_ok _

def ReadableAfter (X : Crates Tx Db Core) (payload : Option (OpBuiltPayload Tx)) : Prop :=
  ∀ built ∈ payload, ∀ list ∈ built.block.body.blockAccessList, Readable X list

def LatestReadable (X : Crates Tx Db Core) (executor : FlashblocksStateExecutor Tx) : Prop :=
  ReadableAfter X (executor.inner.latestPayload.map Prod.fst)

theorem previousBal_readable {payload : Option (OpBuiltPayload Tx)} {committed : Committed Tx}
    (h : ReadableAfter X payload) (hcommitted : loadCommitted X payload = .ok committed) :
    ∀ list ∈ committed.previousBal, Readable X list := by
  cases payload with
  | none =>
      rw [loadCommitted_none hcommitted]
      rintro _ ⟨⟩ _ hmem
      cases hmem
  | some built =>
      rw [(loadCommitted_some hcommitted).2.2.1]
      exact h built rfl

theorem setUp_avoids_iff (db : Db) (ctx : OpPayloadBuilderCtx Tx)
    {payload : Option (OpBuiltPayload Tx)} (h : ReadableAfter X payload)
    (bal : Option BlockAccessList) :
    Avoids IsPanic (setUp X db ctx payload bal) ↔
      ∀ committed, loadCommitted X payload = .ok committed → ∀ list ∈ bal, Readable X list := by
  unfold setUp
  rw [avoids_bind_iff, and_iff_right (loadCommitted_avoids payload)]
  apply forall₂_congr
  intro committed hcommitted
  rw [avoids_bind_iff, initialBalState_avoids_iff (previousBal_readable h hcommitted),
    and_iff_left_iff_imp]
  intro _ balState _
  refine (prepareState_avoids ctx committed _).bind fun _ _ => ?_
  exact (avoids_mapM fun tx _ => recover_avoids tx.value _).bind_pure _

theorem executeParallel_avoids (db : Db) (bundle : BundleState) (balState : BalState)
    (evmEnv : EvmEnv) (indexed : Recovered Tx × BalIndex) :
    Avoids IsPanic (executeParallel X db bundle balState evmEnv indexed) := by
  rw [executeParallel_eq]
  exact orError_avoids _

theorem nonceOrFee_avoids (hexpected : Expected X) {db : Db} {bundle : BundleState}
    {balState : BalState} {evmEnv : EvmEnv} {indexed : Recovered Tx × BalIndex}
    {result : ParallelResult Tx} (state : State Core)
    (h : executeParallel X db bundle balState evmEnv indexed = .ok result) :
    Avoids IsPanic (nonceOrFee X evmEnv.blockEnv.basefee state result) := by
  rw [executeParallel_eq, orError_eq_ok, map_eq_ok] at h
  obtain ⟨outcome, houtcome, rfl⟩ := h
  obtain ⟨htransact, htx, _⟩ := transactAt_eq_ok.mp houtcome
  unfold nonceOrFee
  split
  · exact (orError_avoids _).bind_pure _
  · rename_i hdeposit
    rw [TxOutcome.parallelResult, htx] at hdeposit ⊢
    obtain ⟨fee, hfee⟩ := Option.isSome_iff_exists.mp
      (hexpected.transact evmEnv indexed.1 _ _ htransact (Bool.eq_false_iff.mpr hdeposit))
    rw [orPanic_eq_ok.mpr hfee]
    exact avoids_ok _

theorem execute_avoids_iff (hexpected : Expected X) (db : Db) (ctx : OpPayloadBuilderCtx Tx)
    {payload : Option (OpBuiltPayload Tx)} (h : ReadableAfter X payload)
    (bal : Option BlockAccessList) (evmEnv : EvmEnv) :
    Avoids IsPanic (execute X db ctx payload bal evmEnv) ↔
      ∀ committed, loadCommitted X payload = .ok committed → ∀ list ∈ bal, Readable X list := by
  unfold execute
  rw [avoids_bind_iff, setUp_avoids_iff db ctx h, and_iff_left_iff_imp]
  intro _ setup _
  apply (avoids_mapM fun indexed _ => executeParallel_avoids db _ _ evmEnv indexed).bind
  intro results hresults
  apply Avoids.bind_pure
  apply avoids_foldlM
  intro merged result hmem
  obtain ⟨indexed, _, hindexed⟩ :=
    mapM_mem hresults result ((List.perm_insertionSort _ results).mem_iff.mp hmem)
  exact (nonceOrFee_avoids hexpected setup.state hindexed).bind_pure _

theorem assemble_avoids (stateProvider : Db) (ctx : OpPayloadBuilderCtx Tx) (evmEnv : EvmEnv)
    (extraData : Bytes) (executed : Execution Tx) :
    Avoids IsPanic (assemble X stateProvider ctx evmEnv extraData executed) := by
  unfold assemble withdrawalsAndRequests
  apply Avoids.bind
  · split
    · exact (orError_avoids _).bind_pure _
    · split <;> exact avoids_ok _
  · intro roots _
    exact (orError_avoids _).bind_pure _

theorem buildContents_avoids_iff (hexpected : Expected X) (base : ExecutionPayloadBaseV1)
    {committed : Option (OpBuiltPayload Tx)} (h : ReadableAfter X committed)
    (flashblock : Flashblock) (args : BuildArgs Tx Db) :
    Avoids IsPanic (buildContents X base committed flashblock args) ↔
      ∀ loaded, loadCommitted X committed = .ok loaded →
        ∀ list ∈ flashblock.diff.blockAccessList, Readable X list := by
  unfold buildContents build
  rw [avoids_bind_iff, avoids_bind_iff, execute_avoids_iff hexpected _ _ h]
  rw [and_assoc, and_iff_left_iff_imp]
  intro _
  refine ⟨?_, fun _ _ => avoids_ok _⟩
  intro executed _
  exact (assemble_avoids _ _ _ _ executed).bind_pure _

/-! A call. -/

theorem decodeTransactions_avoids (diff : ExecutionPayloadFlashblockDeltaV1) :
    Avoids IsPanic (decodeTransactions X diff) := by
  refine avoids_mapM fun b _ => ?_
  exact (orError_avoids _).bind_pure _

theorem eip1559Params_avoids (hexpected : Expected X) (chainSpec : OpChainSpec)
    (timestamp : UInt64) : Avoids IsPanic (eip1559Params X chainSpec timestamp) := by
  unfold eip1559Params
  refine (orError_avoids _).bind fun eip1559 h => ?_
  have hlength := hexpected.encodeHoloceneExtraData _ _ (orError_eq_ok.mp h)
  rw [if_neg (by omega)]
  exact avoids_ok _

theorem argsAt_avoids (provider : Provider Db) (base : ExecutionPayloadBaseV1)
    (committed : Option (OpBuiltPayload Tx)) (attributes : OpPayloadBuilderAttributes Tx)
    (sealedHeader : SealedHeader) :
    Avoids IsPanic (argsAt X provider base committed attributes sealedHeader) := by
  refine (orError_avoids _).bind fun _ _ => ?_
  exact (orError_avoids _).bind_pure _

theorem buildArgs_avoids (hexpected : Expected X) {provider : Provider Db}
    {chainSpec : OpChainSpec} {fuel : Nat} {base : ExecutionPayloadBaseV1}
    {committed : Option (OpBuiltPayload Tx)} {flashblock : Flashblock}
    {answer : Except Failure (BuildArgs Tx Db)}
    (h : buildArgs X provider chainSpec fuel base committed flashblock = some answer) :
    Avoids IsPanic answer := by
  have hattributes : Avoids IsPanic (receivedAttributes X chainSpec base flashblock) := by
    refine (decodeTransactions_avoids flashblock.diff).bind fun _ _ => ?_
    exact (eip1559Params_avoids hexpected chainSpec base.timestamp).bind_pure _
  unfold buildArgs at h
  cases hreceived : receivedAttributes X chainSpec base flashblock with
  | error e =>
      rw [hreceived] at h hattributes
      cases h
      exact hattributes.of_error
  | ok attributes =>
      rw [hreceived] at h
      obtain ⟨header, _, rfl⟩ := Option.map_eq_some_iff.mp h
      exact argsAt_avoids provider base committed attributes header

theorem install_avoids (self : FlashblocksStateExecutor Tx) (flashblock : Flashblock)
    (payload : OpBuiltPayload Tx) : Avoids IsPanic (install self flashblock payload).result := by
  unfold install
  split
  · exact error_avoids _
  · exact avoids_ok ()

theorem publish_avoids (self : FlashblocksStateExecutor Tx) (payload : FlashblocksPayload)
    (builtPayload : OpBuiltPayload Tx) :
    Avoids IsPanic (publishBuiltPayload self payload builtPayload).result := by
  unfold publishBuiltPayload
  split
  · exact error_avoids _
  · exact avoids_ok ()

theorem buildAndInstall_avoids_iff (debugAssertions : Bool) (self : FlashblocksStateExecutor Tx)
    (base : ExecutionPayloadBaseV1) (flashblock : Flashblock) (args : BuildArgs Tx Db) :
    Avoids IsPanic (buildAndInstall X debugAssertions self base flashblock args).result ↔
      Avoids IsPanic
          (buildContents X base (self.inner.latestPayload.map Prod.fst) flashblock args) ∧
        ∀ payload, buildContents X base (self.inner.latestPayload.map Prod.fst) flashblock args =
          .ok (some payload) → debugAssertions →
            X.blockHash payload.block = flashblock.diff.blockHash := by
  unfold buildAndInstall
  cases buildContents X base (self.inner.latestPayload.map Prod.fst) flashblock args with
  | error e => simp
  | ok built =>
      cases built with
      | none => simp
      | some payload =>
          simp only [avoids_ok, Except.ok.injEq, Option.some.injEq, forall_eq', true_and]
          by_cases hassertion :
              debugAssertions ∧ X.blockHash payload.block ≠ flashblock.diff.blockHash
          · rw [if_pos hassertion]
            refine iff_of_false ?_ fun h => hassertion.2 (h hassertion.1)
            simp [IsPanic]
          · rw [if_neg hassertion]
            refine iff_of_true (install_avoids self flashblock payload) ?_
            intro hdebug
            exact not_not.mp fun hne => hassertion ⟨hdebug, hne⟩

variable {debugAssertions : Bool} {provider : Provider Db} {chainSpec : OpChainSpec} {fuel : Nat}
  {self : FlashblocksStateExecutor Tx} {flashblock : Flashblock}

theorem Started.unique {isNew isNew' : Bool} {base base' : ExecutionPayloadBaseV1}
    {args args' : BuildArgs Tx Db}
    (h : Started X provider chainSpec fuel self flashblock isNew base args)
    (h' : Started X provider chainSpec fuel self flashblock isNew' base' args') :
    isNew' = isNew ∧ base' = base ∧ args' = args := by
  cases h.isNew_eq.symm.trans h'.isNew_eq
  cases h.base_eq.symm.trans h'.base_eq
  cases h.args_eq.symm.trans h'.args_eq
  exact ⟨rfl, rfl, rfl⟩

theorem Started.process {isNew : Bool} {base : ExecutionPayloadBaseV1} {args : BuildArgs Tx Db}
    (h : Started X provider chainSpec fuel self flashblock isNew base args) :
    processFlashblock X debugAssertions provider chainSpec fuel self flashblock =
      some (buildAndInstall X debugAssertions (opened self isNew) base flashblock args) := by
  simp only [processFlashblock, h.unknown, h.isNew_eq, h.base_eq, h.args_eq, Option.map_some]

theorem unstarted_avoids (hexpected : Expected X)
    (hunstarted : ∀ isNew base args,
      ¬Started X provider chainSpec fuel self flashblock isNew base args)
    {done : Returned Tx}
    (h : processFlashblock X debugAssertions provider chainSpec fuel self flashblock = some done) :
    Avoids IsPanic done.result := by
  have hstage := @staged _ _ _ X debugAssertions provider chainSpec fuel self flashblock
  rw [h] at hstage
  generalize hanswer : some done = answer at hstage
  cases hstage with
  | known payload =>
      cases hanswer
      exact avoids_ok ()
  | refused e =>
      cases hanswer
      exact error_avoids _
  | ready isNew base hunknown hisNew hbase =>
      obtain ⟨args, hargs, heq⟩ := Option.map_eq_some_iff.mp hanswer.symm
      have havoids := buildArgs_avoids hexpected hargs
      cases args with
      | error e =>
          cases heq
          exact havoids.of_error
      | ok args => exact (hunstarted isNew base args ⟨hunknown, hisNew, hbase, hargs⟩).elim

theorem freshlyBuilt_iff {payload : OpBuiltPayload Tx} :
    FreshlyBuilt X provider chainSpec fuel self flashblock payload ↔
      ∃ isNew base args, Started X provider chainSpec fuel self flashblock isNew base args ∧
        buildContents X base ((opened self isNew).inner.latestPayload.map Prod.fst) flashblock
          args = .ok (some payload) := by
  constructor
  · rintro ⟨hunknown, isNew, hisNew, base, args, hbase, hargs, hcontents⟩
    exact ⟨isNew, base, args, ⟨hunknown, hisNew, hbase, hargs⟩, hcontents⟩
  · rintro ⟨isNew, base, args, hstarted, hcontents⟩
    exact ⟨hstarted.unknown, isNew, hstarted.isNew_eq, base, args, hstarted.base_eq,
      hstarted.args_eq, hcontents⟩

theorem process_avoids_iff (hexpected : Expected X)
    (hlatest : LatestReadable X self) :
    (∀ done, processFlashblock X debugAssertions provider chainSpec fuel self flashblock =
        some done → Avoids IsPanic done.result) ↔
      Harmless X debugAssertions provider chainSpec fuel self flashblock := by
  by_cases hany : ∃ isNew base args,
      Started X provider chainSpec fuel self flashblock isNew base args
  · obtain ⟨isNew, base, args, hstarted⟩ := hany
    have hopened : LatestReadable X (opened self isNew) := by
      cases isNew with
      | false => exact hlatest
      | true =>
          intro built hbuilt
          cases hbuilt
    rw [hstarted.process]
    simp only [Option.some.injEq, forall_eq']
    rw [buildAndInstall_avoids_iff, buildContents_avoids_iff hexpected base hopened]
    constructor
    · rintro ⟨hreadable, hannounced⟩
      constructor
      · intro isNew' base' args' committed hstarted'
        obtain ⟨rfl, rfl, rfl⟩ := hstarted.unique hstarted'
        exact hreadable committed
      · intro hdebug payload hfresh
        obtain ⟨isNew', base', args', hstarted', hcontents⟩ := freshlyBuilt_iff.mp hfresh
        obtain ⟨rfl, rfl, rfl⟩ := hstarted.unique hstarted'
        exact hannounced payload hcontents hdebug
    · intro hharmless
      refine ⟨fun committed => hharmless.readable isNew base args committed hstarted, ?_⟩
      intro payload hcontents hdebug
      exact hharmless.announced hdebug payload
        (freshlyBuilt_iff.mpr ⟨isNew, base, args, hstarted, hcontents⟩)
  · have hunstarted : ∀ isNew base args,
        ¬Started X provider chainSpec fuel self flashblock isNew base args :=
      fun isNew base args hstarted => hany ⟨isNew, base, args, hstarted⟩
    refine iff_of_true (fun done hdone => unstarted_avoids hexpected hunstarted hdone) ⟨?_, ?_⟩
    · intro isNew base args _ hstarted
      exact (hunstarted isNew base args hstarted).elim
    · intro _ payload hfresh
      obtain ⟨isNew, base, args, hstarted, _⟩ := freshlyBuilt_iff.mp hfresh
      exact (hunstarted isNew base args hstarted).elim

/-! Runs. -/

/-- A published payload carries the list that revm has written for its block. -/
def PublishesOwn (X : Crates Tx Db Core) : Call Tx Db → Prop
  | .publishBuiltPayload _ builtPayload _ =>
      ∀ list ∈ builtPayload.block.body.blockAccessList, ∃ bal, list = X.intoAlloyBal bal
  | .registerPayloadEvents | .processFlashblock _ _ _ _ => True

def HarmlessCall (X : Crates Tx Db Core) (debugAssertions : Bool)
    (executor : FlashblocksStateExecutor Tx) : Call Tx Db → Prop
  | .publishBuiltPayload _ _ _ | .registerPayloadEvents => True
  | .processFlashblock provider chainSpec fuel flashblock =>
      Harmless X debugAssertions provider chainSpec fuel executor flashblock

def Survives (outcome : Outcome Tx) : Prop := ∀ result ∈ outcome.result, Avoids IsPanic result

theorem builds_readable (hexpected : Expected X) {isNew : Bool} {payload : OpBuiltPayload Tx}
    (h : Builds X provider chainSpec fuel self isNew flashblock payload) :
    ∀ list ∈ payload.block.body.blockAccessList, Readable X list := by
  obtain ⟨_, _, _, _, hcontents⟩ := h
  obtain ⟨outcome, hbuild, heq⟩ := bind_eq_ok.mp hcontents
  obtain ⟨executed, built, _, hassemble, rfl⟩ := build_eq_ok.mp hbuild
  have hbuilt : built = payload := by
    split at heq <;> exact Option.some.inj (Except.ok.inj heq)
  subst hbuilt
  rw [(assembled hassemble).blockAccessList]
  intro list hlist
  cases hlist
  exact hexpected.intoAlloyBal _

/-- The step lemma: whatever a call makes the latest payload has a readable list. -/
theorem perform_readable (hexpected : Expected X) (call : Call Tx Db)
    (h : LatestReadable X self) (hpublishes : PublishesOwn X call) :
    LatestReadable X (perform X debugAssertions self call).1 := by
  cases call with
  | registerPayloadEvents => exact h
  | publishBuiltPayload payload builtPayload id_eq =>
      rcases publishBuiltPayload_cases self payload builtPayload with ⟨e, heq⟩ | ⟨_, _, _, heq⟩
      · simp only [perform, heq]
        exact h
      · simp only [perform, heq]
        intro built hbuilt list hlist
        cases hbuilt
        obtain ⟨bal, rfl⟩ := hpublishes list hlist
        exact hexpected.intoAlloyBal bal
  | processFlashblock provider chainSpec fuel flashblock =>
      cases hdone : processFlashblock X debugAssertions provider chainSpec fuel self flashblock with
      | none =>
          simp only [perform, hdone]
          exact h
      | some done =>
          simp only [perform, hdone]
          cases processed hdone with
          | known payload hknown => exact h
          | refused e => exact h
          | failed isNew e events =>
              cases isNew with
              | false => exact h
              | true =>
                  intro built hbuilt
                  cases hbuilt
          | installed isNew payload flashblocks _ _ hbuilds =>
              intro built hbuilt
              cases hbuilt
              exact builds_readable hexpected hbuilds

theorem perform_survives_iff (hexpected : Expected X) (h : LatestReadable X self)
    (call : Call Tx Db) :
    (∀ outcome ∈ (perform X debugAssertions self call).2, Survives outcome) ↔
      HarmlessCall X debugAssertions self call := by
  cases call with
  | registerPayloadEvents =>
      refine iff_of_true ?_ trivial
      simp [perform, Survives]
  | publishBuiltPayload payload builtPayload id_eq =>
      refine iff_of_true ?_ trivial
      simpa [perform, Survives] using publish_avoids self payload builtPayload
  | processFlashblock provider chainSpec fuel flashblock =>
      rw [HarmlessCall, ← process_avoids_iff hexpected h]
      cases hdone : processFlashblock X debugAssertions provider chainSpec fuel self flashblock with
      | none => simp [perform, hdone, Survives]
      | some done => simp [perform, hdone, Survives]

/-- Exactly when no call of a run panics. -/
theorem survives_iff (hexpected : Expected X)
    (pendingBlock : Option (BuiltPayloadExecutedBlock Tx)) {calls : List (Call Tx Db)}
    (hpublishes : ∀ call ∈ calls, PublishesOwn X call) :
    (∀ outcome ∈ (exec (perform X debugAssertions) (.new pendingBlock) calls).2,
        Survives outcome) ↔
      Meets (perform X debugAssertions)
        (fun reached call => HarmlessCall X debugAssertions reached.1 call) (.new pendingBlock)
        calls := by
  have hstart : LatestReadable X (FlashblocksStateExecutor.new pendingBlock) := by
    intro built hbuilt
    cases hbuilt
  exact outputs_iff_meets hstart (fun _ call h hcall => perform_readable hexpected call h hcall)
    (fun _ call h => perform_survives_iff hexpected h call) hpublishes

/-! Crates that check the code bytes of a list, as revm does: a delegation is 23
bytes long, everything else is legacy code. -/

def isBytecode (code : Bytes) : Bool :=
  code.take 2 ≠ [0xef, 0x01] || (code.length = 23 && code[2]? = some 0)

def checking : Crates SampleTx SampleDb SampleCore :=
  { sample with
    tryFromAlloy := fun acc =>
      if acc.codeChanges.all fun change => isBytecode change.newCode then some (fromAlloySample acc)
      else none
    intoAlloyBal := fun bal => (intoAlloySample bal).map fun acc =>
      { acc with codeChanges := acc.codeChanges.filter fun change => isBytecode change.newCode } }

theorem checking_expected : Expected checking where
  intoAlloyBal bal alloyAcc hmem := by
    obtain ⟨acc, _, rfl⟩ := List.mem_map.mp hmem
    simp [checking]
  transact _ _ _ _ _ _ := rfl
  encodeHoloceneExtraData _ extraData h := by
    cases h
    rfl

theorem survives_iff_publishing :
    (∀ outcome ∈ (exec (perform checking false) (.new none) [published, received []]).2,
        Survives outcome) ↔
      Meets (perform checking false)
        (fun reached call => HarmlessCall checking false reached.1 call) (.new none)
        [published, received []] := by
  apply survives_iff checking_expected none
  intro call hcall
  rcases List.mem_cons.mp hcall with rfl | hcall
  · intro list hlist
    cases hlist
    exact ⟨{}, rfl⟩
  · rw [List.mem_singleton.mp hcall]
    trivial

/-- Flashblock 0 of payload 1 with two code bytes that start a delegation. -/
def truncatedDelegation : Flashblock where
  flashblock := { (opens 1 12 []).flashblock with
    diff := { blockAccessList := some [{ address := 1, codeChanges := [⟨1, [0xef, 0x01]⟩] }] } }

/-- It comes off the wire, and the call panics, also without debug assertions. -/
theorem truncatedDelegation_panics :
    ¬∀ (calls : List (Call SampleTx SampleDb)) buf payload rest,
      decodeMsg sampleCodecs buf = .ok (.flashblocksPayloadV1 payload, rest) →
        ∀ outcome ∈ (perform checking false (exec (perform checking false) (.new none) calls).1
          (.processFlashblock sampleProvider sampleChainSpec 1 ⟨payload⟩)).2, Survives outcome := by
  intro hall
  have hdecode := (msg_lawful sample_lawful).decode
    (.flashblocksPayloadV1 truncatedDelegation.flashblock) [] (by decide +kernel)
  have hsurvives := hall [] _ _ [] hdecode ⟨some (.error (.panic "it should not fail here")),
    [.build truncatedDelegation none]⟩ (List.mem_singleton.mpr rfl)
  exact hsurvives _ rfl _ rfl ⟨_, rfl⟩

end WorldChain.Executor.Panics
