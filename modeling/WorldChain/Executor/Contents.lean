import WorldChain.Builder.Cut
import WorldChain.Executor.Preconfirmed

/-! What is in the block that a follower pre-confirms: the transactions of all the
flashblocks that it holds, executed as one block. -/
namespace WorldChain.Executor.Contents
open Library.Fallible Library.Runs Wire.Primitives Deps.Revm Deps.Reth Deps.Calls Deps.Concrete
open Builder.Assemble Builder.Outcome Builder.Cut
open Process Announced Coupling Preconfirmed

variable {Tx Db Core : Type}

def partOf (base : ExecutionPayloadBaseV1) (flashblock : Flashblock) (args : BuildArgs Tx Db) :
    Part Tx Db where
  db := args.stateProvider
  stateProvider := args.stateProvider
  ctx := args.ctx
  bal := flashblock.diff.blockAccessList
  evmEnv := args.evmEnv
  extraData := base.extraData

def decodeAll (X : Crates Tx Db Core) (flashblocks : List Flashblock) : Except String (List Tx) :=
  (flashblocks.flatMap fun fb => fb.diff.transactions).mapM X.decode2718Exact

variable (X : Crates Tx Db Core) (chain : Chain Db)

/-- The environment of a block, which is that of all of its flashblocks. -/
def envOf (base : ExecutionPayloadBaseV1) : Except String EvmEnv :=
  X.nextEvmEnv (chain.header base.parentHash).header (nextBlockContext base)

def termsOf (base : ExecutionPayloadBaseV1) (evmEnv : EvmEnv) : Terms :=
  ⟨chain.chainSpec, base.timestamp, evmEnv.blockEnv.basefee⟩

structure PartOf (base : ExecutionPayloadBaseV1) (flashblock : Flashblock) (part : Part Tx Db) :
    Prop where
  state : part.db = chain.state base.parentHash
  parent : part.ctx.parent = chain.header base.parentHash
  bal : part.bal = flashblock.diff.blockAccessList
  env : envOf X chain base = .ok part.evmEnv
  terms : part.terms = termsOf chain base part.evmEnv
  values : flashblock.diff.transactions.mapM X.decode2718Exact = .ok part.values

structure OnParent (base : ExecutionPayloadBaseV1) (payload : OpBuiltPayload Tx)
    (executed : BuiltPayloadExecutedBlock Tx) : Prop where
  executedBlock : payload.executedBlock = some executed
  block : executed.recoveredBlock.block = payload.block
  parentHash : payload.block.header.parentHash = (chain.header base.parentHash).hash
  number : payload.block.header.number = (chain.header base.parentHash).header.number + 1
  timestamp : payload.block.header.timestamp = base.timestamp

/-- The payload is the block of the flashblocks. Each one has been executed on the state of the
parent block with what the ones before it have committed, and only the first one with the
pre-execution changes; the transactions are numbered through, and the receipts, the gas and the
fees are those of one pass over all of them. -/
structure BlockOf (base : ExecutionPayloadBaseV1) (flashblocks : List Flashblock)
    (payload : OpBuiltPayload Tx) (evmEnv : EvmEnv) (parts : List (Part Tx Db))
    (runs : List (Run Tx Core)) : Prop where
  env : envOf X chain base = .ok evmEnv
  each : List.Forall₂ (PartOf X chain base) flashblocks parts
  ran : runsFrom X none parts = .ok runs
  onlyFirst : OnlyFirstApplies X parts runs
  transactions : decodeAll X flashblocks = .ok payload.block.body.transactions
  numbered : (runs.flatMap (·.results)).map (fun result => (result.tx.inner, result.index)) =
    payload.block.body.transactions.zipIdx 1
  accounts : Accounts X (termsOf chain base evmEnv) (chargesOf X runs) (some payload)

variable {X chain}

/-! Decoding. -/

theorem decodeTransactions_values {diff : ExecutionPayloadFlashblockDeltaV1}
    {transactions : List (WithEncoded Tx)} (h : decodeTransactions X diff = .ok transactions) :
    diff.transactions.mapM X.decode2718Exact = .ok (transactions.map (·.value)) := by
  have hforall := mapM_eq_ok.mp h
  apply mapM_eq_ok.mpr
  rw [List.forall₂_map_right_iff]
  apply hforall.imp
  intro encoded transaction hdecoded
  obtain ⟨tx, htx, heq⟩ := bind_eq_ok.mp hdecoded
  cases heq
  exact orError_eq_ok.mp htx

theorem decodeAll_parts {base : ExecutionPayloadBaseV1} {flashblocks : List Flashblock}
    {parts : List (Part Tx Db)} (h : List.Forall₂ (PartOf X chain base) flashblocks parts) :
    decodeAll X flashblocks = .ok (parts.flatMap Part.values) := by
  unfold decodeAll
  induction h with
  | nil => rfl
  | cons hfirst _ ih =>
      rw [List.flatMap_cons, List.flatMap_cons]
      exact mapM_append_ok hfirst.values ih

/-! One flashblock as a part. -/

theorem receivedAttributes_eq_ok {chainSpec : OpChainSpec} {base : ExecutionPayloadBaseV1}
    {flashblock : Flashblock} {attributes : OpPayloadBuilderAttributes Tx}
    (h : receivedAttributes X chainSpec base flashblock = .ok attributes) :
    ∃ transactions params, decodeTransactions X flashblock.diff = .ok transactions ∧
      attributes = attributesOf base flashblock transactions params := by
  obtain ⟨transactions, htransactions, hrest⟩ := bind_eq_ok.mp h
  obtain ⟨params, _, heq⟩ := bind_eq_ok.mp hrest
  exact ⟨transactions, params, htransactions, (Except.ok.inj heq).symm⟩

theorem buildContents_part {base : ExecutionPayloadBaseV1}
    {committed next : Option (OpBuiltPayload Tx)} {flashblock : Flashblock}
    {args : BuildArgs Tx Db} (h : buildContents X base committed flashblock args = .ok next) :
    buildPart X committed (partOf base flashblock args) = .ok next := by
  obtain ⟨outcome, houtcome, hnext⟩ := bind_eq_ok.mp h
  obtain ⟨_, payload, _, _, rfl⟩ := build_eq_ok.mp houtcome
  have hpart : buildPart X committed (partOf base flashblock args) =
      .ok ((if args.ctx.attributes.noTxPool then BuildOutcomeKind.freeze payload
        else .better payload).payload.or committed) :=
    bind_eq_ok.mpr ⟨_, houtcome, rfl⟩
  rw [hpart, ← hnext]
  split <;> rfl

theorem execute_part {chainSpec : OpChainSpec} {base : ExecutionPayloadBaseV1}
    {committed next : Option (OpBuiltPayload Tx)} {flashblock : Flashblock}
    (h : execute X chain chainSpec base committed flashblock = .ok next) :
    ∃ part, PartOf X chain base flashblock part ∧ buildPart X committed part = .ok next := by
  obtain ⟨attributes, hattributes, hrest⟩ := bind_eq_ok.mp h
  obtain ⟨args, hargs, hcontents⟩ := bind_eq_ok.mp hrest
  obtain ⟨state, hstate, henv⟩ := bind_eq_ok.mp hargs
  obtain ⟨evmEnv, hevmEnv, heq⟩ := bind_eq_ok.mp henv
  cases orError_eq_ok.mp hstate
  cases heq
  obtain ⟨transactions, params, htransactions, rfl⟩ := receivedAttributes_eq_ok hattributes
  refine ⟨_, ?_, buildContents_part hcontents⟩
  exact {
    state := rfl
    parent := rfl
    bal := rfl
    env := orError_eq_ok.mp hevmEnv
    terms := rfl
    values := decodeTransactions_values htransactions }

/-! All of them. -/

theorem executeAll_last {chainSpec : OpChainSpec} {base : ExecutionPayloadBaseV1}
    {before : List Flashblock} {flashblock : Flashblock} {committed : Option (OpBuiltPayload Tx)}
    (h : executeAll X chain chainSpec base (before ++ [flashblock]) = .ok committed) :
    ∃ middle, executeAll X chain chainSpec base before = .ok middle ∧
      execute X chain chainSpec base middle flashblock = .ok committed := by
  have hsplit := h
  rw [executeAll, List.foldlM_append] at hsplit
  obtain ⟨middle, hmiddle, _⟩ := bind_eq_ok.mp hsplit
  exact ⟨middle, hmiddle, (executeAll_concat hmiddle flashblock).symm.trans h⟩

theorem executed_parts {chainSpec : OpChainSpec} {base : ExecutionPayloadBaseV1}
    {flashblocks : List Flashblock} {start committed : Option (OpBuiltPayload Tx)}
    (h : flashblocks.foldlM (execute X chain chainSpec base) start = .ok committed) :
    ∃ parts, List.Forall₂ (PartOf X chain base) flashblocks parts ∧
      buildFrom X start parts = .ok committed := by
  induction flashblocks generalizing start with
  | nil => exact ⟨[], .nil, h⟩
  | cons flashblock rest ih =>
      rw [List.foldlM_cons] at h
      obtain ⟨next, hnext, hrest⟩ := bind_eq_ok.mp h
      obtain ⟨part, hpart, hbuilt⟩ := execute_part hnext
      obtain ⟨parts, hparts, hfrom⟩ := ih hrest
      exact ⟨part :: parts, .cons hpart hparts, bind_eq_ok.mpr ⟨next, hbuilt, hfrom⟩⟩

theorem terms_of_parts {base : ExecutionPayloadBaseV1} {evmEnv : EvmEnv}
    (henv : envOf X chain base = .ok evmEnv) {flashblocks : List Flashblock}
    {parts : List (Part Tx Db)} (h : List.Forall₂ (PartOf X chain base) flashblocks parts) :
    ∀ part ∈ parts, part.terms = termsOf chain base evmEnv := by
  induction h with
  | nil =>
      intro _ hpart
      cases hpart
  | cons hfirst _ ih =>
      intro part hpart
      rcases List.mem_cons.mp hpart with rfl | hrest
      · rw [hfirst.terms, Except.ok.inj (hfirst.env.symm.trans henv)]
      · exact ih part hrest

theorem onParent_of_execute {chainSpec : OpChainSpec} {base : ExecutionPayloadBaseV1}
    {committed : Option (OpBuiltPayload Tx)} {flashblock : Flashblock}
    {payload : OpBuiltPayload Tx}
    (h : execute X chain chainSpec base committed flashblock = .ok (some payload)) :
    ∃ executed, OnParent chain base payload executed := by
  obtain ⟨attributes, hattributes, hrest⟩ := bind_eq_ok.mp h
  obtain ⟨args, hargs, hcontents⟩ := bind_eq_ok.mp hrest
  obtain ⟨state, _, henv⟩ := bind_eq_ok.mp hargs
  obtain ⟨evmEnv, _, heq⟩ := bind_eq_ok.mp henv
  cases heq
  obtain ⟨transactions, params, _, rfl⟩ := receivedAttributes_eq_ok hattributes
  obtain ⟨outcome, houtcome, hpayload⟩ := bind_eq_ok.mp hcontents
  obtain ⟨_, built, _, hassemble, rfl⟩ := build_eq_ok.mp houtcome
  have hsame : built = payload := Option.some.inj (Except.ok.inj hpayload)
  subst hsame
  obtain ⟨_, _, _, _, rfl⟩ := assemble_eq_ok hassemble
  exact ⟨_, rfl, rfl, rfl, rfl, rfl⟩

theorem onParent_of_executeAll {chainSpec : OpChainSpec} {base : ExecutionPayloadBaseV1}
    {flashblocks : List Flashblock} {payload : OpBuiltPayload Tx}
    (h : executeAll X chain chainSpec base flashblocks = .ok (some payload)) :
    ∃ executed, OnParent chain base payload executed := by
  cases flashblocks using List.reverseRecOn with
  | nil => cases h
  | append_singleton before flashblock =>
      obtain ⟨_, _, hlast⟩ := executeAll_last h
      exact onParent_of_execute hlast

theorem blockOf_executeAll (hlaws : RecoverLaws X) {chainSpec : OpChainSpec}
    {base : ExecutionPayloadBaseV1} {flashblocks : List Flashblock} {payload : OpBuiltPayload Tx}
    (h : executeAll X chain chainSpec base flashblocks = .ok (some payload)) :
    ∃ evmEnv parts runs, BlockOf X chain base flashblocks payload evmEnv parts runs := by
  obtain ⟨parts, hparts, hbuilt⟩ := executed_parts h
  have hne : parts ≠ [] := by
    rintro rfl
    cases hbuilt
  obtain ⟨evmEnv, henv⟩ : ∃ evmEnv, envOf X chain base = .ok evmEnv := by
    cases hparts with
    | nil => exact (hne rfl).elim
    | cons hfirst _ => exact ⟨_, hfirst.env⟩
  obtain ⟨runs, hruns, haccounts, hnumbered⟩ :=
    accounts_along hlaws (show Accounts X (termsOf chain base evmEnv) [] none from rfl)
      (terms_of_parts henv hparts) hbuilt
  have htransactions : payload.block.body.transactions = parts.flatMap Part.values := by
    rw [haccounts.1]
    exact charges_tx hnumbered
  refine ⟨evmEnv, parts, runs, henv, hparts, hruns, onlyFirstApplies hne hruns, ?_, ?_, haccounts⟩
  · rw [decodeAll_parts hparts, htransactions]
  · rw [hnumbered, htransactions]
    rfl

/-- What a follower pre-confirms is one block of all the flashblocks that it holds, whatever it
has received besides and however far its providers lagged: its latest payload and its pending
block are what the collection executes to. Whatever state the node is in before, it is enough
that nothing disturbs it from the first flashblock of a payload on. -/
theorem pending_block (hlaws : RecoverLaws X) (debugAssertions : Bool) (chainSpec : OpChainSpec)
    (start : FlashblocksStateExecutor Tx) (calls : List (Call Tx Db))
    (h : Meets (step X debugAssertions) (Following X debugAssertions chain chainSpec) start calls)
    (hpushed : Pushed (exec (step X debugAssertions) start calls).2) :
    let executor := (exec (step X debugAssertions) start calls).1
    let flashblocks := executor.inner.flashblocks
    ∃ payload executed evmEnv parts runs,
      executeAll X chain chainSpec flashblocks.base flashblocks.toList = .ok (some payload) ∧
      executor.inner.latestPayload = some (payload, flashblocks.last.flashblock.index) ∧
      executor.pendingBlock = some executed ∧
      OnParent chain flashblocks.base payload executed ∧
      BlockOf X chain flashblocks.base flashblocks.toList payload evmEnv parts runs := by
  obtain ⟨payload, hall, hlatest, hpending⟩ := executed_along_run h hpushed
  obtain ⟨executed, honParent⟩ := onParent_of_executeAll hall
  obtain ⟨evmEnv, parts, runs, hblock⟩ := blockOf_executeAll hlaws hall
  exact ⟨payload, executed, evmEnv, parts, runs, hall, hlatest,
    hpending.trans honParent.executedBlock, honParent, hblock⟩

def continues (transactions : List Bytes) : Flashblock where
  flashblock := {
    payloadId := 1
    index := 1
    diff := { transactions := transactions }
    metadata := {}
    base := none }

def processes (flashblock : Flashblock) : Call SampleTx SampleDb :=
  .processFlashblock sampleProvider sampleChainSpec 1 flashblock

theorem following_two :
    Meets (step sample false) (Following sample false sampleChain sampleChainSpec) (.new none)
      [processes (opens 1 12 [[1, 0]]), processes (continues [[2, 0]])] := by
  have hfirst : Meets (step sample false) (Following sample false sampleChain sampleChainSpec)
      (.new none) [processes (opens 1 12 [[1, 0]])] := by
    refine Meets.nil.concat ⟨⟨?_, ?_⟩, sampleChain_serves, rfl⟩
    · intro hpushed
      exact (not_pushed_nil hpushed).elim
    · intro _ hnext
      cases hnext
  refine hfirst.concat ⟨⟨?_, ?_⟩, sampleChain_serves, rfl⟩
  · intro _ hnew
    cases hnew
  · intro hnone
    exact (hnone ⟨_, List.mem_cons_of_mem _ List.mem_cons_self⟩).elim

theorem pending_block_two_flashblocks :
    let executor := (exec (step sample false) (.new none)
      [processes (opens 1 12 [[1, 0]]), processes (continues [[2, 0]])]).1
    let flashblocks := executor.inner.flashblocks
    flashblocks.toList = [opens 1 12 [[1, 0]], continues [[2, 0]]] ∧
    ∃ payload executed evmEnv parts runs,
      executeAll sample sampleChain sampleChainSpec flashblocks.base flashblocks.toList =
        .ok (some payload) ∧
      executor.inner.latestPayload = some (payload, flashblocks.last.flashblock.index) ∧
      executor.pendingBlock = some executed ∧
      OnParent sampleChain flashblocks.base payload executed ∧
      BlockOf sample sampleChain flashblocks.base flashblocks.toList payload evmEnv parts runs := by
  refine ⟨by decide +kernel, ?_⟩
  exact pending_block sample_recoverLaws false sampleChainSpec (.new none) _ following_two
    ⟨_, List.mem_cons_of_mem _ List.mem_cons_self⟩

end WorldChain.Executor.Contents
