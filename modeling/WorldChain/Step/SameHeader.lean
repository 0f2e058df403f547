import WorldChain.Step.GasUsed

/-! The header a publisher assembles and the header a receiver assembles for
the same flashblock, over every payload job and every run of the receiver. -/
namespace WorldChain.Step.SameHeader
open Library.Fallible Library.Overlay Library.Runs
open Wire.Primitives Deps.Revm Deps.Reth Deps.Calls Deps.Concrete Reverts
open Builder.Build Builder.Assemble Builder.Outcome Executor.Process Executor.Announced
open Publish GasUsed

variable {Tx Db Core : Type}

/-- A run of the step in a payload job. The executor is shared with the rest of
the node and may be in any state by then. -/
structure Round (Tx : Type) where
  p2p : FlashblocksStateExecutor Tx
  payload : Payload Tx
  now : Int

structure Published (Tx : Type) where
  payload : Payload Tx
  flashblock : Flashblock
  builtPayload : OpBuiltPayload Tx

def publishedBy (payload : Payload Tx) (stepped : Stepped Tx) : List (Published Tx) :=
  match stepped.flow with
  | .ok (some ⟨some builtPayload⟩) => stepped.events.filterMap fun
      | .publishNew flashblock => some ⟨payload, ⟨flashblock⟩, builtPayload⟩
      | _ => none
  | _ => []

def round (X : Crates Tx Db Core) (debugAssertions : Bool) (ctx : StepContext Tx Db)
    (self : PublishFlashblock Tx) (round : Round Tx) : PublishFlashblock Tx × List (Published Tx) :=
  let stepped := Publish.step X debugAssertions { self with p2p := round.p2p } round.payload ctx
    round.now
  (stepped.self, publishedBy round.payload stepped)

/-- A checkpoint of the job: it builds the job's block, and its barrier holds no
payload or one the job has published before. -/
def InJob (ctx : StepContext Tx Db) (reached : PublishFlashblock Tx × List (Published Tx))
    (round : Round Tx) : Prop :=
  round.payload.block = ctx.block ∧
    ∀ barrier ∈ round.payload.latestBarrier, ∀ built ∈ barrier.maybeBuiltPayload,
      ∃ published ∈ reached.2, published.builtPayload = built

structure FromJob (X : Crates Tx Db Core) (ctx : StepContext Tx Db) (published : Published Tx) :
    Prop where
  block : published.payload.block = ctx.block
  base : published.flashblock.base = some (executionPayloadBase ctx)
  assembled : ∃ totals, TotalsMatch totals ∧
    assembleBlock X published.payload ctx totals = .ok published.builtPayload

variable {X : Crates Tx Db Core}

theorem step_published (X : Crates Tx Db Core) (debugAssertions : Bool) (self : PublishFlashblock Tx)
    (payload : Payload Tx) (ctx : StepContext Tx Db) (now : Int) :
    (Publish.step X debugAssertions self payload ctx now).self.blockBase = self.blockBase ∧
      ∀ published ∈ publishedBy payload (Publish.step X debugAssertions self payload ctx now),
        ∃ builtPayload, buildOpBuiltPayload X debugAssertions self payload ctx = .ok builtPayload ∧
          published = ⟨payload, ⟨flashblockOf X self payload ctx now builtPayload⟩, builtPayload⟩ := by
  unfold Publish.step
  cases hbuilt : buildOpBuiltPayload X debugAssertions self payload ctx with
  | error e => exact ⟨rfl, fun _ hmem => nomatch hmem⟩
  | ok builtPayload =>
      cases publishBuiltPayload_cases self.p2p (flashblockOf X self payload ctx now builtPayload)
          builtPayload with
      | inl hrefused =>
          obtain ⟨e, heq⟩ := hrefused
          simp only [heq]
          exact ⟨trivial, fun _ hmem => nomatch hmem⟩
      | inr hpublished =>
          obtain ⟨_, _, _, heq⟩ := hpublished
          simp only [heq]
          refine ⟨trivial, ?_⟩
          intro published hmem
          simp only [publishedBy, List.filterMap_cons, List.filterMap_nil, List.mem_singleton] at hmem
          exact ⟨builtPayload, rfl, hmem⟩

theorem published_fromJob {debugAssertions : Bool} {ctx : StepContext Tx Db}
    {self : PublishFlashblock Tx} {rounds : List (Round Tx)}
    (h : Meets (round X debugAssertions ctx) (InJob ctx) (beforeJob self ctx) rounds) :
    ∀ published ∈ (exec (round X debugAssertions ctx) (beforeJob self ctx) rounds).2,
      FromJob X ctx published := by
  have hrun := exec_invariant (fun reached =>
    reached.1.blockBase = some (executionPayloadBase ctx) ∧
      ∀ published ∈ reached.2, FromJob X ctx published) ⟨rfl, fun _ hmem => nomatch hmem⟩ ?_ h
  · exact hrun.2
  intro reached next hreached hinJob
  obtain ⟨hbase, hpublished⟩ := hreached
  obtain ⟨hblock, hbarriers⟩ := hinJob
  obtain ⟨hkept, hnew⟩ := step_published X debugAssertions
    { reached.1 with p2p := next.p2p } next.payload ctx next.now
  refine ⟨hkept.trans hbase, ?_⟩
  intro published hmem
  rcases List.mem_append.mp hmem with hold | hlast
  · exact hpublished published hold
  obtain ⟨builtPayload, hbuilt, rfl⟩ := hnew published hlast
  refine ⟨hblock, hbase, buildOpBuiltPayload_eq_ok ?_ hbuilt⟩
  intro barrier hbarrier built hmaybe
  obtain ⟨earlier, hearlier, rfl⟩ := hbarriers barrier hbarrier built hmaybe
  obtain ⟨totals, hmatch, hassemble⟩ := (hpublished earlier hearlier).assembled
  obtain ⟨_, _, hrest⟩ := bind_eq_ok.mp hassemble
  obtain ⟨_, _, heq⟩ := bind_eq_ok.mp hrest
  rw [← Except.ok.inj heq]
  exact matches_sealPayload hmatch

/-- How the accessors of a block are related. -/
structure BlockLaws (block : BlockContext Tx) : Prop where
  number : saturatingTo block.evmEnv.blockEnv.number = block.parent.header.number + 1
  baseFee : block.baseFee = block.evmEnv.blockEnv.basefee
  parentBeaconBlockRoot : block.blockEnv.parentBeaconBlockRoot =
    block.attributes.payloadAttributes.parentBeaconBlockRoot

structure SameChain (provider : Provider Db) (ctx : StepContext Tx Db) : Prop where
  chainSpec : provider.chainSpec = ctx.block.chainSpec
  parent : ∀ attempt header,
    provider.sealedHeaderByHash attempt ctx.block.parent.hash = .ok (some header) →
      header = ctx.block.parent
  state : ∀ stateProvider, provider.stateByBlockHash ctx.block.parent.hash = .ok stateProvider →
    stateProvider = ctx.provider

/-- `next_evm_env` gives the receiver the block environment of the publisher. -/
structure SameBlockEnv (ctx : StepContext Tx Db) (evmEnv : EvmEnv) : Prop where
  beneficiary : evmEnv.blockEnv.beneficiary = ctx.block.evmEnv.blockEnv.beneficiary
  basefee : evmEnv.blockEnv.basefee = ctx.block.evmEnv.blockEnv.basefee
  prevrandao : evmEnv.blockEnv.prevrandao = ctx.block.evmEnv.blockEnv.prevrandao
  difficulty : evmEnv.blockEnv.difficulty = ctx.block.evmEnv.blockEnv.difficulty

structure SameExecution (received published : OpBuiltPayload Tx) : Prop where
  transactions : received.block.body.transactions = published.block.body.transactions
  senders : received.executedBlock.map (fun executed => executed.recoveredBlock.senders) =
    published.executedBlock.map fun executed => executed.recoveredBlock.senders
  receipts : received.receipts = published.receipts
  bundle : received.executedBlock.map (fun executed => executed.executionOutput.bundle) =
    published.executedBlock.map fun executed => executed.executionOutput.bundle
  blockAccessList : received.block.body.blockAccessList = published.block.body.blockAccessList

theorem recovered_ext {txs txs' : List (Recovered Tx)}
    (hinner : txs.map (·.inner) = txs'.map (·.inner))
    (hsigner : txs.map (·.signer) = txs'.map (·.signer)) : txs = txs' := by
  induction txs generalizing txs' with
  | nil => exact (List.map_eq_nil_iff.mp hinner.symm).symm
  | cons tx rest ih =>
      cases txs' with
      | nil => cases hinner
      | cons tx' rest' =>
          obtain ⟨hfirst, hrest⟩ := List.cons.inj hinner
          obtain ⟨hfirst', hrest'⟩ := List.cons.inj hsigner
          rw [ih hrest hrest', show tx = tx' from by cases tx; cases tx'; simp_all]

/-- The receiver stores no footprint where the publisher stores its own. -/
theorem blobGas_eq_iff (chainSpec : OpChainSpec) (timestamp daFootprint : UInt64) :
    blobGas chainSpec timestamp 0 = blobGas chainSpec timestamp daFootprint ↔
      (chainSpec.isJovianActiveAtTimestamp timestamp → daFootprint = 0) := by
  unfold blobGas
  cases chainSpec.isJovianActiveAtTimestamp timestamp with
  | true => simp [eq_comm]
  | false => simp

theorem baseOf_fromJob {ctx : StepContext Tx Db} {published : Published Tx}
    (hfrom : FromJob X ctx published) {executor : FlashblocksStateExecutor Tx}
    (hcollected : ∀ earlier ∈ executor.inner.flashblocks.toList,
      earlier.payloadId = published.flashblock.payloadId →
        earlier.base = published.flashblock.base) {isNew : Bool}
    (hisNew : executor.inner.flashblocks.isNewPayload published.flashblock = .ok isNew)
    {base : ExecutionPayloadBaseV1}
    (hbase : baseOf (opened executor isNew) isNew published.flashblock = .ok base) :
    base = executionPayloadBase ctx := by
  cases isNew with
  | true =>
      have hsome := orPanic_eq_ok.mp hbase
      rw [hfrom.base] at hsome
      exact (Option.some.inj hsome).symm
  | false =>
      obtain ⟨hid, _⟩ := isNewPayload_false hisNew
      have hfirst := hcollected _ (List.head_mem executor.inner.flashblocks.guaranteed.nonempty)
        hid.symm
      rw [hfrom.base] at hfirst
      have hcurrent : executor.inner.flashblocks.base = base := Except.ok.inj hbase
      rw [← hcurrent]
      unfold Flashblocks.base
      exact Option.get_of_eq_some _ hfirst

theorem received_sealed {ctx : StepContext Tx Db} {published : Published Tx}
    (hfrom : FromJob X ctx published) {executor : FlashblocksStateExecutor Tx}
    (hcollected : ∀ earlier ∈ executor.inner.flashblocks.toList,
      earlier.payloadId = published.flashblock.payloadId →
        earlier.base = published.flashblock.base)
    {provider : Provider Db} {chainSpec : OpChainSpec} {fuel : Nat}
    (hchain : SameChain provider ctx)
    (henv : ∀ evmEnv, X.nextEvmEnv ctx.block.parent.header
      (nextBlockContext (executionPayloadBase ctx)) = .ok evmEnv → SameBlockEnv ctx evmEnv)
    {received : OpBuiltPayload Tx}
    (hreceived : FreshlyBuilt X provider chainSpec fuel executor published.flashblock received) :
    ∃ builderCtx evmEnv executed roots stateRoot transactions params,
      builderCtx.attributes =
        attributesOf (executionPayloadBase ctx) published.flashblock transactions params ∧
      builderCtx.chainSpec = ctx.block.chainSpec ∧ builderCtx.parent = ctx.block.parent ∧
      SameBlockEnv ctx evmEnv ∧
      withdrawalsAndRequests X ctx.block.chainSpec ctx.block.timestamp
        (flattenBundle executed.merged.bundle) ctx.provider = .ok roots ∧
      orError (X.stateRoot ctx.provider (flattenBundle executed.merged.bundle)) = .ok stateRoot ∧
      received = sealPayload builderCtx.payloadId
        (Builder.Assemble.header X builderCtx evmEnv ctx.block.blockEnv.extraData executed roots.1
          roots.2 stateRoot (X.intoAlloyBal executed.merged.finalBal))
        executed.transactions (some (X.intoAlloyBal executed.merged.finalBal))
        (flattenBundle executed.merged.bundle) executed.merged.receipts executed.merged.fees
        (builderCtx.parent.header.number + 1) := by
  obtain ⟨_, isNew, hisNew, base, args, hbase, hargs, hcontents⟩ := hreceived
  cases baseOf_fromJob hfrom hcollected hisNew hbase
  obtain ⟨transactions, params, later, hattributes, hspec, hheader, hstate, hevmEnv⟩ :=
    buildArgs_eq_ok hargs
  obtain ⟨outcome, hbuild, hpayload⟩ := bind_eq_ok.mp hcontents
  obtain ⟨executed, built, _, hassemble, houtcome⟩ := build_eq_ok.mp hbuild
  have hbuilt : built = received := by
    rw [houtcome] at hpayload
    split at hpayload <;> exact Option.some.inj (Except.ok.inj hpayload)
  obtain ⟨roots, stateRoot, hroots, hstateRoot, hsealed⟩ := assemble_eq_ok hassemble
  have hparent := hchain.parent later _ hheader
  have hprovider := hchain.state _ hstate
  have htimestamp : args.ctx.timestamp = ctx.block.timestamp := by
    rw [OpPayloadBuilderCtx.timestamp, OpPayloadBuilderCtx.attributes, hattributes]
    rfl
  rw [hparent] at hevmEnv
  rw [hspec, hchain.chainSpec, htimestamp, hprovider] at hroots
  rw [hprovider] at hstateRoot
  exact ⟨args.ctx, args.evmEnv, executed, roots, stateRoot, transactions, params, hattributes,
    hspec.trans hchain.chainSpec, hparent, henv _ hevmEnv, hroots, hstateRoot,
    hbuilt.symm.trans hsealed⟩

theorem sameExecution_sealed {id id' : PayloadId} {header header' : Header}
    {txs txs' : List (Recovered Tx)} {list list' : BlockAccessList} {bundle bundle' : BundleState}
    {receipts receipts' : List OpReceipt} {fees fees' : U256} {first first' : UInt64}
    (h : SameExecution (sealPayload id header txs (some list) bundle receipts fees first)
      (sealPayload id' header' txs' (some list') bundle' receipts' fees' first')) :
    txs = txs' ∧ receipts = receipts' ∧ bundle = bundle' ∧ list = list' := by
  refine ⟨recovered_ext h.transactions (Option.some.inj h.senders), ?_, Option.some.inj h.bundle,
    Option.some.inj h.blockAccessList⟩
  have hreceipts := h.receipts
  simpa [OpBuiltPayload.receipts, sealPayload] using hreceipts

/-- The two headers of one execution, up to what the receiver takes elsewhere. -/
theorem header_eq_iff {ctx : StepContext Tx Db} (hlaws : BlockLaws ctx.block)
    {published : Published Tx} (hblock : published.payload.block = ctx.block)
    {builderCtx : OpPayloadBuilderCtx Tx} {evmEnv : EvmEnv} {transactions : List (WithEncoded Tx)}
    {params : B64}
    (hattributes : builderCtx.attributes =
      attributesOf (executionPayloadBase ctx) published.flashblock transactions params)
    (hspec : builderCtx.chainSpec = ctx.block.chainSpec)
    (hparent : builderCtx.parent = ctx.block.parent) (henv : SameBlockEnv ctx evmEnv)
    {executed : Execution Tx} {totals : Totals}
    (hreceipts : executed.merged.receipts = totals.receipts)
    (hgas : executed.merged.cumulativeGasUsed = totals.cumulativeGasUsed)
    (withdrawalsRoot requestsHash : Option B256) (stateRoot : B256) :
    Builder.Assemble.header X builderCtx evmEnv ctx.block.blockEnv.extraData executed
        withdrawalsRoot requestsHash stateRoot published.payload.alloyBal =
      Publish.header X published.payload totals executed.transactions withdrawalsRoot requestsHash
        stateRoot ↔
      ctx.block.evmEnv.blockEnv.gasLimit = 0 ∧
        (ctx.block.chainSpec.isJovianActiveAtTimestamp ctx.block.timestamp →
          published.payload.cumulativeDaFootprint.getD 0 = 0) ∧
        ctx.block.attributes.payloadAttributes.parentBeaconBlockRoot.isSome := by
  have htimestamp : builderCtx.timestamp = ctx.block.timestamp := by
    rw [OpPayloadBuilderCtx.timestamp, hattributes]
    rfl
  have hblob := blobGas_eq_iff ctx.block.chainSpec ctx.block.timestamp
    (published.payload.cumulativeDaFootprint.getD 0)
  rw [Prod.ext_iff, and_comm] at hblob
  unfold Builder.Assemble.header Publish.header
  simp only [hblock, hspec, hparent, htimestamp, hattributes, hreceipts, hgas, henv.beneficiary,
    henv.basefee, henv.prevrandao, henv.difficulty, hlaws.number, hlaws.baseFee,
    hlaws.parentBeaconBlockRoot, Header.mk.injEq, true_and, and_true]
  have hgasLimit : (attributesOf (executionPayloadBase ctx) published.flashblock transactions
      params).gasLimit.getD 0 = ctx.block.evmEnv.blockEnv.gasLimit ↔
        ctx.block.evmEnv.blockEnv.gasLimit = 0 := eq_comm
  have hroot : (attributesOf (executionPayloadBase ctx) published.flashblock transactions
      params).payloadAttributes.parentBeaconBlockRoot =
        ctx.block.attributes.payloadAttributes.parentBeaconBlockRoot ↔
          ctx.block.attributes.payloadAttributes.parentBeaconBlockRoot.isSome := by
    simp only [attributesOf, executionPayloadBase]
    cases ctx.block.attributes.payloadAttributes.parentBeaconBlockRoot <;> simp
  rw [hgasLimit, hroot, ← hblob, and_assoc]

/-- Exactly when the receiver assembles the header of the publisher: its gas
limit, its footprint under Jovian and its parent beacon root come from nowhere
in the flashblock, so they have to be what the receiver puts there. -/
theorem same_header_iff {debugAssertions debugAssertions' : Bool} {ctx : StepContext Tx Db}
    (hlaws : BlockLaws ctx.block) {self : PublishFlashblock Tx} {rounds : List (Round Tx)}
    (hjob : Meets (round X debugAssertions ctx) (InJob ctx) (beforeJob self ctx) rounds)
    {published : Published Tx}
    (hpublished :
      published ∈ (exec (round X debugAssertions ctx) (beforeJob self ctx) rounds).2)
    {pendingBlock : Option (BuiltPayloadExecutedBlock Tx)}
    {calls : List (Executor.Coupling.Call Tx Db)}
    (hcalls : Meets (Executor.Coupling.step X debugAssertions') PublishesOwn (.new pendingBlock)
      calls)
    {executor : FlashblocksStateExecutor Tx}
    (hexecutor :
      (exec (Executor.Coupling.step X debugAssertions') (.new pendingBlock) calls).1 = executor)
    (hcollected : ∀ earlier ∈ executor.inner.flashblocks.toList,
      earlier.payloadId = published.flashblock.payloadId →
        earlier.base = published.flashblock.base)
    {provider : Provider Db} {chainSpec : OpChainSpec} {fuel : Nat}
    (hchain : SameChain provider ctx)
    (henv : ∀ evmEnv, X.nextEvmEnv ctx.block.parent.header
      (nextBlockContext (executionPayloadBase ctx)) = .ok evmEnv → SameBlockEnv ctx evmEnv)
    {received : OpBuiltPayload Tx}
    (hreceived : FreshlyBuilt X provider chainSpec fuel executor published.flashblock received)
    (hsame : SameExecution received published.builtPayload) :
    received.block.header = published.builtPayload.block.header ↔
      ctx.block.evmEnv.blockEnv.gasLimit = 0 ∧
        (ctx.block.chainSpec.isJovianActiveAtTimestamp ctx.block.timestamp →
          published.payload.cumulativeDaFootprint.getD 0 = 0) ∧
        ctx.block.attributes.payloadAttributes.parentBeaconBlockRoot.isSome := by
  have hfrom := published_fromJob hjob published hpublished
  obtain ⟨totals, hmatch, hassemble⟩ := hfrom.assembled
  obtain ⟨roots', hroots', hrest⟩ := bind_eq_ok.mp hassemble
  obtain ⟨stateRoot', hstateRoot', heq⟩ := bind_eq_ok.mp hrest
  have hbuilt := (Except.ok.inj heq).symm
  obtain ⟨builderCtx, evmEnv, executed, roots, stateRoot, transactions, params, hattributes, hspec,
    hparent, hsameEnv, hroots, hstateRoot, hsealed⟩ :=
      received_sealed hfrom hcollected hchain henv hreceived
  have hgas := receipts_of_matches (matches_of_fresh (latest_matches hcalls hexecutor) hreceived)
  rw [hbuilt, hsealed] at hsame
  obtain ⟨htxs, hreceipts, hbundle, hlist⟩ := sameExecution_sealed hsame
  rw [hsealed] at hgas
  rw [hfrom.block, ← hbundle, hroots] at hroots'
  cases hroots'
  rw [← hbundle, hstateRoot] at hstateRoot'
  cases hstateRoot'
  have hown : executed.merged.cumulativeGasUsed = gasOf executed.merged.receipts := by
    simpa [sealPayload, Builder.Assemble.header, OpBuiltPayload.receipts] using hgas
  have hsameGas : executed.merged.cumulativeGasUsed = totals.cumulativeGasUsed := by
    rw [hown, hreceipts, hmatch]
  rw [hbuilt, hsealed]
  simp only [sealPayload, hlist, ← htxs]
  exact header_eq_iff hlaws hfrom.block hattributes hspec hparent hsameEnv hreceipts hsameGas _ _ _

/-! A job on the sample chain that publishes a flashblock of one transaction, and a node
that has received a flashblock of an earlier payload. -/

def sampleBlock : BlockContext SampleTx where
  parent := ⟨sampleHeader, 7⟩
  chainSpec := sampleChainSpec
  attributes := (sampleCtx []).config.attributes
  evmEnv := { blockEnv := {
    number := 2, timestamp := 12, gasLimit := 30000000, prevrandao := some 0 } }
  blockEnv := nextBlockAttributes (sampleCtx []) []
  baseBundleState := {}
  payloadId := 1
  number := 2
  timestamp := 12
  baseFee := 0
  coinbase := 0

def sampleJob : StepContext SampleTx SampleDb where
  block := sampleBlock
  provider := {}
  accountNonce _ := .ok none

def executedOne : Checkpoint SampleTx where
  state := some {
    state := overlays blank [overlay (writesOfSender 1 { nonce := 1 }) (writesOfStores [])] }
  transactions := [⟨{ signer := 1 }, 1⟩]
  result := some [⟨true, 21000, []⟩]
  prev := none

def oneTransactionRound : Round SampleTx where
  p2p := .new none
  payload := {
    block := sampleBlock
    latestBarrier := none
    history := [executedOne]
    historyStaging := [executedOne]
    cumulativeDaFootprint := none
    alloyBal := [rootEntry, { address := 1, nonceChanges := [⟨1, 1⟩] }] }
  now := 0

def sampleRun : PublishFlashblock SampleTx × List (Published SampleTx) :=
  exec (round sample false sampleJob) (beforeJob ⟨.new none, 0, none⟩ sampleJob) [oneTransactionRound]

def samplePublished : Published SampleTx := sampleRun.2.head (List.cons_ne_nil _ _)

theorem sample_meets : Meets (round sample false sampleJob) (InJob sampleJob)
    (beforeJob ⟨.new none, 0, none⟩ sampleJob) [oneTransactionRound] := by
  refine Meets.nil.concat ⟨rfl, ?_⟩
  intro barrier hbarrier
  cases hbarrier

theorem sample_blockLaws : BlockLaws sampleJob.block where
  number := rfl
  baseFee := rfl
  parentBeaconBlockRoot := rfl

theorem sample_sameChain : SameChain sampleProvider sampleJob where
  chainSpec := rfl
  parent _ _ h := (Option.some.inj (Except.ok.inj h)).symm
  state _ h := (Except.ok.inj h).symm

theorem sample_sameBlockEnv (evmEnv : EvmEnv)
    (h : sample.nextEvmEnv sampleJob.block.parent.header
      (nextBlockContext (executionPayloadBase sampleJob)) = .ok evmEnv) :
    SameBlockEnv sampleJob evmEnv := by
  cases h
  exact ⟨rfl, rfl, rfl, rfl⟩

def earlierCalls : List (Executor.Coupling.Call SampleTx SampleDb) :=
  [.processFlashblock sampleProvider sampleChainSpec 1 (opens 2 11 [])]

def sampleReceiver : FlashblocksStateExecutor SampleTx :=
  (exec (Executor.Coupling.step sample false) (.new none) earlierCalls).1

theorem sample_received : ∃ received,
    FreshlyBuilt sample sampleProvider sampleChainSpec 1 sampleReceiver samplePublished.flashblock
      received ∧
    SameExecution received samplePublished.builtPayload ∧
    received.block.header.gasLimit = 0 :=
  ⟨_, ⟨rfl, true, rfl, _, _, rfl, rfl, rfl⟩, ⟨rfl, rfl, rfl, rfl, rfl⟩, rfl⟩

theorem sample_collected :
    ∀ earlier ∈ sampleReceiver.inner.flashblocks.toList,
      earlier.payloadId = samplePublished.flashblock.payloadId →
        earlier.base = samplePublished.flashblock.base := by
  intro earlier hmem hid
  cases List.mem_singleton.mp hmem
  exact absurd hid (by decide)

theorem same_header_iff_one_transaction : ∃ received : OpBuiltPayload SampleTx,
    received.block.header = samplePublished.builtPayload.block.header ↔
      sampleJob.block.evmEnv.blockEnv.gasLimit = 0 ∧
        (sampleJob.block.chainSpec.isJovianActiveAtTimestamp sampleJob.block.timestamp →
          samplePublished.payload.cumulativeDaFootprint.getD 0 = 0) ∧
        sampleJob.block.attributes.payloadAttributes.parentBeaconBlockRoot.isSome := by
  obtain ⟨received, hreceived, hsame, _⟩ := sample_received
  have hcalls : Meets (Executor.Coupling.step sample false) PublishesOwn (.new none)
      earlierCalls := Meets.nil.concat trivial
  exact ⟨received, same_header_iff sample_blockLaws sample_meets (List.head_mem _) hcalls rfl
    sample_collected sample_sameChain sample_sameBlockEnv hreceived hsame⟩

/-- The publisher's header has gas limit 30000000, the receiver's 0. -/
theorem header_differs :
    ¬∀ received,
      FreshlyBuilt sample sampleProvider sampleChainSpec 1 sampleReceiver
        samplePublished.flashblock received →
      SameExecution received samplePublished.builtPayload →
        received.block.header = samplePublished.builtPayload.block.header := by
  intro hall
  obtain ⟨received, hreceived, hsame, hgasLimit⟩ := sample_received
  have hheader := hall received hreceived hsame
  rw [hheader] at hgasLimit
  exact absurd hgasLimit (by decide)

end WorldChain.Step.SameHeader
