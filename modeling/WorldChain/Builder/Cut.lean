import WorldChain.Builder.Outcome

/-! A block built in parts, each on the payload of the one before, against the
same transactions built at once. -/
namespace WorldChain.Builder.Cut
open Library.Fallible
open Wire.Primitives Deps.Revm Deps.Reth Deps.Calls Deps.Concrete Step.Reverts
open Build Assemble Builder.Sequential Builder.Outcome

variable {Tx Db Core : Type} (X : Crates Tx Db Core)

/-- What `build` is called with for one flashblock, up to the committed payload. -/
structure Part (Tx Db : Type) where
  db : Db
  stateProvider : Db
  ctx : OpPayloadBuilderCtx Tx
  bal : Option BlockAccessList
  evmEnv : EvmEnv
  extraData : Bytes

def Part.values (part : Part Tx Db) : List Tx := part.ctx.attributes.transactions.map (·.value)

def buildPart (committedPayload : Option (OpBuiltPayload Tx)) (part : Part Tx Db) :
    Except Failure (Option (OpBuiltPayload Tx)) := do
  let outcome ← build X part.db part.stateProvider part.ctx committedPayload part.bal part.evmEnv
    part.extraData
  return outcome.payload.or committedPayload

def buildFrom (committedPayload : Option (OpBuiltPayload Tx)) (parts : List (Part Tx Db)) :
    Except Failure (Option (OpBuiltPayload Tx)) :=
  parts.foldlM (buildPart X) committedPayload

structure Run (Tx Core : Type) where
  setup : Setup Tx Core
  results : List (ParallelResult Tx)

def runPart (committedPayload : Option (OpBuiltPayload Tx)) (part : Part Tx Db) :
    Except Failure (Run Tx Core) := do
  let setup ← setUp X part.db part.ctx committedPayload part.bal
  let results ← setup.transactions.mapM
    (executeParallel X part.db setup.committed.bundle setup.state.balState part.evmEnv)
  return ⟨setup, results⟩

def runsFrom (committedPayload : Option (OpBuiltPayload Tx)) :
    List (Part Tx Db) → Except Failure (List (Run Tx Core))
  | [] => return []
  | part :: rest => do
      let run ← runPart X committedPayload part
      let payload ← buildPart X committedPayload part
      let runs ← runsFrom payload rest
      return run :: runs

def depositNonce (state : State Core) (result : ParallelResult Tx) : Option UInt64 :=
  if X.isDeposit result.tx.inner then
    match X.read (state.setBalIndex result.index) (.account result.tx.signer) with
    | .ok account => Option.map AccountInfo.nonce account
    | .error _ => none
  else none

def feeOf (basefee : UInt64) (tx : Tx) (result : ExecutionResult) : U256 :=
  if X.isDeposit tx then 0
  else
    BitVec.ofNat 256 ((X.effectiveTipPerGas tx basefee).getD 0) *
      BitVec.ofNat 256 result.gasUsed.toNat

@[ext] structure Charge (Tx : Type) where
  tx : Tx
  result : ExecutionResult
  depositNonce : Option UInt64

def chargeOf (state : State Core) (result : ParallelResult Tx) : Charge Tx :=
  ⟨result.tx.inner, result.execResult, depositNonce X state result⟩

def Run.charges (run : Run Tx Core) : List (Charge Tx) :=
  run.results.map (chargeOf X run.setup.state)

def chargesOf (runs : List (Run Tx Core)) : List (Charge Tx) := runs.flatMap (Run.charges X)

structure Terms where
  chainSpec : OpChainSpec
  timestamp : UInt64
  basefee : UInt64

def Part.terms (part : Part Tx Db) : Terms :=
  ⟨part.ctx.chainSpec, part.ctx.timestamp, part.evmEnv.blockEnv.basefee⟩

structure Tally where
  receipts : List OpReceipt := []
  gasUsed : UInt64 := 0
  fees : U256 := 0

def Tally.add (terms : Terms) (tally : Tally) (charge : Charge Tx) : Tally :=
  let gasUsed := tally.gasUsed + charge.result.gasUsed
  { receipts := tally.receipts ++ [buildReceipt X charge.tx charge.result gasUsed
      charge.depositNonce terms.chainSpec terms.timestamp]
    gasUsed := gasUsed
    fees := tally.fees + feeOf X terms.basefee charge.tx charge.result }

def tallyFrom (terms : Terms) (start : Tally) (charges : List (Charge Tx)) : Tally :=
  charges.foldl (Tally.add X terms) start

def tallyOfMerged (merged : Merged) : Tally :=
  ⟨merged.receipts, merged.cumulativeGasUsed, merged.fees⟩

def tallyOfPayload (payload : OpBuiltPayload Tx) : Tally :=
  ⟨payload.receipts, payload.block.header.gasUsed, payload.fees⟩

def freshState (part : Part Tx Db) (committed : Committed Tx) (balState : BalState) : State Core :=
  { core := X.buildState part.db committed.bundle, balState := balState }

/-- The transactions of a part run on the pre-execution changes, made at index 0. -/
def AppliesPreExecution (part : Part Tx Db) (setup : Setup Tx Core) : Prop :=
  ∃ balState builder, initialBalState X setup.committed part.bal = .ok balState ∧
    balState.balIndex = 0 ∧ blockBuilder X part.ctx setup.committed = .ok builder ∧
    builder.applyPreExecutionChanges X (freshState X part setup.committed balState) =
      .ok setup.state

def SkipsPreExecution (part : Part Tx Db) (setup : Setup Tx Core) : Prop :=
  ∃ balState, initialBalState X setup.committed part.bal = .ok balState ∧
    setup.state = freshState X part setup.committed balState

variable {X}

/-! One part. -/

theorem nonceOrFee_eq_ok {basefee : UInt64} {state : State Core} {result : ParallelResult Tx}
    {charged : Option UInt64 × U256} (h : nonceOrFee X basefee state result = .ok charged) :
    charged = (depositNonce X state result, feeOf X basefee result.tx.inner result.execResult) := by
  unfold nonceOrFee at h
  unfold depositNonce feeOf
  by_cases hdeposit : X.isDeposit result.tx.inner
  · simp only [hdeposit, ↓reduceIte] at h ⊢
    obtain ⟨account, haccount, heq⟩ := bind_eq_ok.mp h
    rw [orError_eq_ok.mp haccount]
    exact (Except.ok.inj heq).symm
  · simp only [hdeposit] at h ⊢
    obtain ⟨tip, htip, heq⟩ := bind_eq_ok.mp h
    rw [orPanic_eq_ok.mp htip]
    exact (Except.ok.inj heq).symm

theorem tally_mergeResult {part : Part Tx Db} {state : State Core} {merged merged' : Merged}
    {result : ParallelResult Tx}
    (h : mergeResult X part.ctx part.evmEnv.blockEnv.basefee state merged result = .ok merged') :
    tallyOfMerged merged' =
      (tallyOfMerged merged).add X part.terms (chargeOf X state result) := by
  obtain ⟨charged, hcharged, rfl⟩ := mergeResult_eq_ok.mp h
  rw [nonceOrFee_eq_ok hcharged]
  rfl

theorem tally_mergeResults {part : Part Tx Db} {state : State Core} {start merged : Merged}
    {results : List (ParallelResult Tx)}
    (h : results.foldlM (mergeResult X part.ctx part.evmEnv.blockEnv.basefee state) start =
      .ok merged) :
    tallyOfMerged merged =
      tallyFrom X part.terms (tallyOfMerged start) (results.map (chargeOf X state)) := by
  rw [tallyFrom, List.foldl_map]
  exact foldlM_view tallyOfMerged _ (fun _ _ _ => tally_mergeResult) h

structure BuiltPart (X : Crates Tx Db Core) (committedPayload : Option (OpBuiltPayload Tx))
    (part : Part Tx Db) (run : Run Tx Core) (payload : OpBuiltPayload Tx) : Prop where
  ran : runPart X committedPayload part = .ok run
  transactions : payload.block.body.transactions =
    run.setup.committed.transactions.map (·.inner) ++ run.setup.transactions.map (·.1.inner)
  tally : tallyOfPayload payload =
    tallyFrom X part.terms (tallyOfMerged run.setup.committed.merged) (run.charges X)

theorem buildPart_eq_ok {committedPayload next : Option (OpBuiltPayload Tx)} {part : Part Tx Db}
    (h : buildPart X committedPayload part = .ok next) :
    ∃ payload run, next = some payload ∧ BuiltPart X committedPayload part run payload := by
  obtain ⟨outcome, houtcome, hnext⟩ := bind_eq_ok.mp h
  obtain ⟨executed, payload, hexecuted, hassemble, rfl⟩ := build_eq_ok.mp houtcome
  obtain ⟨setup, outcomes, hsetup, hran⟩ := execute_eq_ok.mp hexecuted
  have hassembled := assembled hassemble
  have hpayload : next = some payload := by
    rw [← Except.ok.inj hnext]
    split <;> rfl
  refine ⟨payload, ⟨setup, outcomes.map
    (TxOutcome.parallelResult X part.db setup.committed.bundle setup.state.balState)⟩, hpayload,
    ?_, ?_, ?_⟩
  · rw [runPart, hsetup]
    simp only [bind, Except.bind, parallelResults_eq, hran.ran]
    rfl
  · rw [hassembled.transactions, hran.transactions, List.map_append, List.map_map]
    rfl
  · have htally := tally_mergeResults hran.merged
    rw [tallyOfPayload, hassembled.receipts, hassembled.gasUsed, hassembled.fees]
    exact htally

theorem results_of_runPart {committedPayload : Option (OpBuiltPayload Tx)} {part : Part Tx Db}
    {run : Run Tx Core} (h : runPart X committedPayload part = .ok run) :
    run.results.map (fun result => (result.tx, result.index)) = run.setup.transactions := by
  obtain ⟨setup, _, hrest⟩ := bind_eq_ok.mp h
  obtain ⟨results, hresults, heq⟩ := bind_eq_ok.mp hrest
  cases heq
  rw [parallelResults_eq, orError_eq_ok, map_eq_ok] at hresults
  obtain ⟨outcomes, houtcomes, rfl⟩ := hresults
  rw [List.map_map]
  exact outcomes_tx houtcomes

structure RecoverLaws (X : Crates Tx Db Core) : Prop where
  inner : ∀ tx recovered, X.tryIntoRecovered tx = .ok recovered → recovered.inner = tx

theorem sample_recoverLaws : RecoverLaws sample where
  inner _ _ h := by
    rw [← Except.ok.inj h]

theorem RecoverLaws.recover (hlaws : RecoverLaws X) {tx : Tx} {message : String → String}
    {recovered : Recovered Tx} (h : recover X tx message = .ok recovered) :
    recovered.inner = tx := by
  unfold Build.recover at h
  cases hfound : X.tryIntoRecovered tx with
  | error shown =>
      rw [hfound] at h
      cases h
  | ok found =>
      rw [hfound] at h
      cases h
      exact hlaws.inner tx _ hfound

theorem RecoverLaws.recoverAll (hlaws : RecoverLaws X) {α : Type} {txOf : α → Tx}
    {message : String → String} {as : List α} {txs : List (Recovered Tx)}
    (h : (as.mapM fun a => Build.recover X (txOf a) message) = .ok txs) :
    txs.map (·.inner) = as.map txOf := by
  have hforall := mapM_eq_ok.mp h
  induction hforall with
  | nil => rfl
  | cons hfirst hrest ih =>
      rw [List.map_cons, List.map_cons, ih (mapM_eq_ok.mpr hrest), hlaws.recover hfirst]

theorem transactions_of_setUp (hlaws : RecoverLaws X) {db : Db} {ctx : OpPayloadBuilderCtx Tx}
    {committedPayload : Option (OpBuiltPayload Tx)} {bal : Option BlockAccessList}
    {setup : Setup Tx Core} (h : setUp X db ctx committedPayload bal = .ok setup) :
    setup.transactions.map (fun indexed => (indexed.1.inner, indexed.2)) =
      (ctx.attributes.transactions.map (·.value)).zipIdx (firstIndex setup.committed) := by
  obtain ⟨balState, index, txs, _, _, hprepared, htxs, hindexed⟩ := setUp_eq_ok.mp h
  rw [prepareState_eq, map_eq_ok] at hprepared
  obtain ⟨changes, _, heq⟩ := hprepared
  have hindex : firstIndex setup.committed = index := congrArg Prod.snd heq
  rw [hindexed, hindex, ← hlaws.recoverAll htxs, List.zipIdx_map]
  rfl

structure Carried (payload : OpBuiltPayload Tx) (committed : Committed Tx) : Prop where
  tally : tallyOfMerged committed.merged = tallyOfPayload payload
  transactions : committed.transactions.map (·.inner) = payload.block.body.transactions
  offset : committed.transactionsOffset = payload.block.body.transactions.length + 1

theorem carried_of_loadCommitted (hlaws : RecoverLaws X) {payload : OpBuiltPayload Tx}
    {committed : Committed Tx} (h : loadCommitted X (some payload) = .ok committed) :
    Carried payload committed := by
  obtain ⟨_, hreceipts, _, hgasUsed, hoffset⟩ := loadCommitted_some h
  cases hexecuted : payload.executedBlock with
  | none =>
      simp only [loadCommitted, hexecuted] at h
      cases h
  | some executed =>
      simp only [loadCommitted, hexecuted] at h
      obtain ⟨txs, htxs, heq⟩ := bind_eq_ok.mp h
      have hinner := hlaws.recoverAll htxs
      rw [List.map_id'] at hinner
      cases heq
      refine ⟨?_, hinner, hoffset⟩
      simp [tallyOfMerged, tallyOfPayload, Committed.merged, ← hreceipts]

theorem Carried.firstIndex_eq {payload : OpBuiltPayload Tx} {committed : Committed Tx}
    (h : Carried payload committed) :
    firstIndex committed = payload.block.body.transactions.length + 1 := by
  rw [firstIndex, h.offset, if_neg (Nat.succ_ne_zero _)]

theorem balIndex_of_initialBalState {committed : Committed Tx} {bal : Option BlockAccessList}
    {balState : BalState} (hoffset : committed.transactionsOffset = 0)
    (h : initialBalState X committed bal = .ok balState) : balState.balIndex = 0 := by
  cases bal with
  | none =>
      rw [initialBalState_none, map_eq_ok] at h
      obtain ⟨_, _, rfl⟩ := h
      rfl
  | some list =>
      rw [initialBalState_some] at h
      obtain ⟨balBuilder, _, hloaded⟩ := bind_eq_ok.mp h
      obtain ⟨loaded, _, rfl⟩ := map_eq_ok.mp hloaded
      exact hoffset

theorem setup_of_runPart {committedPayload : Option (OpBuiltPayload Tx)} {part : Part Tx Db}
    {run : Run Tx Core} (h : runPart X committedPayload part = .ok run) :
    setUp X part.db part.ctx committedPayload part.bal = .ok run.setup := by
  obtain ⟨setup, hsetup, hrest⟩ := bind_eq_ok.mp h
  obtain ⟨results, _, heq⟩ := bind_eq_ok.mp hrest
  rw [hsetup, ← Except.ok.inj heq]

theorem first_applies {part : Part Tx Db} {run : Run Tx Core}
    (h : runPart X none part = .ok run) : AppliesPreExecution X part run.setup := by
  obtain ⟨balState, index, _, hcommitted, hbalState, hprepared, _, _⟩ :=
    setUp_eq_ok.mp (setup_of_runPart h)
  have hoffset : run.setup.committed.transactionsOffset = 0 := by
    rw [loadCommitted_none hcommitted]
  obtain ⟨builder, hbuilder, happlied⟩ := bind_eq_ok.mp hprepared
  rw [if_pos hoffset] at happlied
  obtain ⟨state, hstate, heq⟩ := bind_eq_ok.mp happlied
  have hsame : state = run.setup.state := congrArg Prod.fst (Except.ok.inj heq)
  exact ⟨balState, builder, hbalState, balIndex_of_initialBalState hoffset hbalState, hbuilder,
    hsame ▸ hstate⟩

theorem later_skips {payload : OpBuiltPayload Tx} {part : Part Tx Db} {run : Run Tx Core}
    (h : runPart X (some payload) part = .ok run) : SkipsPreExecution X part run.setup := by
  obtain ⟨balState, index, _, hcommitted, hbalState, hprepared, _, _⟩ :=
    setUp_eq_ok.mp (setup_of_runPart h)
  obtain ⟨_, _, _, _, hoffset⟩ := loadCommitted_some hcommitted
  obtain ⟨builder, _, hkept⟩ := bind_eq_ok.mp hprepared
  rw [if_neg (by rw [hoffset]; exact Nat.succ_ne_zero _)] at hkept
  exact ⟨balState, hbalState, (congrArg Prod.fst (Except.ok.inj hkept)).symm⟩

/-! The parts one after the other. -/

/-- The transactions so far are those of the payload, and its receipts, gas and
fees come from them. -/
def Accounts (X : Crates Tx Db Core) (terms : Terms) (charges : List (Charge Tx)) :
    Option (OpBuiltPayload Tx) → Prop
  | none => charges = []
  | some payload =>
      payload.block.body.transactions = charges.map (·.tx) ∧
        tallyOfPayload payload = tallyFrom X terms {} charges

theorem start_of_accounts (hlaws : RecoverLaws X) {terms : Terms} {before : List (Charge Tx)}
    {committedPayload : Option (OpBuiltPayload Tx)} {committed : Committed Tx}
    (h : Accounts X terms before committedPayload)
    (hcommitted : loadCommitted X committedPayload = .ok committed) :
    committed.transactions.map (·.inner) = before.map (·.tx) ∧
      tallyOfMerged committed.merged = tallyFrom X terms {} before ∧
      firstIndex committed = before.length + 1 := by
  cases committedPayload with
  | none =>
      rw [loadCommitted_none hcommitted, show before = [] from h]
      exact ⟨rfl, rfl, rfl⟩
  | some payload =>
      have hcarried := carried_of_loadCommitted hlaws hcommitted
      refine ⟨hcarried.transactions.trans h.1, hcarried.tally.trans h.2, ?_⟩
      rw [hcarried.firstIndex_eq, h.1, List.length_map]

theorem accounts_built (hlaws : RecoverLaws X) {terms : Terms} {before : List (Charge Tx)}
    {committedPayload : Option (OpBuiltPayload Tx)} {part : Part Tx Db} {run : Run Tx Core}
    {payload : OpBuiltPayload Tx} (h : Accounts X terms before committedPayload)
    (hterms : part.terms = terms) (hbuilt : BuiltPart X committedPayload part run payload) :
    Accounts X terms (before ++ run.charges X) (some payload) ∧
      run.results.map (fun result => (result.tx.inner, result.index)) =
        part.values.zipIdx (before.length + 1) := by
  have hsetup := setup_of_runPart hbuilt.ran
  obtain ⟨_, _, _, hcommitted, _, _, _, _⟩ := setUp_eq_ok.mp hsetup
  obtain ⟨htransactions, htally, hindex⟩ := start_of_accounts hlaws h hcommitted
  have hindexed := transactions_of_setUp hlaws hsetup
  rw [hindex] at hindexed
  have hresults := results_of_runPart hbuilt.ran
  refine ⟨⟨?_, ?_⟩, ?_⟩
  · rw [hbuilt.transactions, htransactions, ← hresults, List.map_append, Run.charges]
    simp only [List.map_map]
    rfl
  · rw [hbuilt.tally, htally, hterms, tallyFrom, tallyFrom, tallyFrom, List.foldl_append]
  · rw [Part.values, ← hindexed, ← hresults, List.map_map]
    rfl

theorem accounts_along (hlaws : RecoverLaws X) {terms : Terms} {before : List (Charge Tx)}
    {committedPayload last : Option (OpBuiltPayload Tx)} {parts : List (Part Tx Db)}
    (h : Accounts X terms before committedPayload) (hterms : ∀ part ∈ parts, part.terms = terms)
    (hlast : buildFrom X committedPayload parts = .ok last) :
    ∃ runs, runsFrom X committedPayload parts = .ok runs ∧
      Accounts X terms (before ++ chargesOf X runs) last ∧
      (runs.flatMap (·.results)).map (fun result => (result.tx.inner, result.index)) =
        (parts.flatMap Part.values).zipIdx (before.length + 1) := by
  induction parts generalizing before committedPayload with
  | nil =>
      cases hlast
      exact ⟨[], rfl, by rwa [chargesOf, List.flatMap_nil, List.append_nil], rfl⟩
  | cons part rest ih =>
      obtain ⟨next, hnext, hrest⟩ := bind_eq_ok.mp hlast
      obtain ⟨payload, run, rfl, hbuilt⟩ := buildPart_eq_ok hnext
      obtain ⟨haccounts, hresults⟩ :=
        accounts_built hlaws h (hterms part List.mem_cons_self) hbuilt
      obtain ⟨runs, hruns, hall, hlater⟩ :=
        ih haccounts (fun part hpart => hterms part (List.mem_cons_of_mem _ hpart)) hrest
      have hlength : (run.charges X).length = part.values.length := by
        have h := congrArg List.length hresults
        simpa [Run.charges] using h
      refine ⟨run :: runs, ?_, ?_, ?_⟩
      · rw [runsFrom, hbuilt.ran, hnext]
        simp only [bind, Except.bind, hruns]
        rfl
      · rwa [chargesOf, List.flatMap_cons, ← List.append_assoc]
      · have hstart : (before ++ run.charges X).length + 1 =
            before.length + 1 + part.values.length := by
          rw [List.length_append, hlength]
          omega
        rw [List.flatMap_cons, List.flatMap_cons, List.map_append, hresults, hlater, hstart,
          ← List.zipIdx_append]

theorem runsFrom_cons {committedPayload : Option (OpBuiltPayload Tx)} {part : Part Tx Db}
    {rest : List (Part Tx Db)} {runs : List (Run Tx Core)}
    (h : runsFrom X committedPayload (part :: rest) = .ok runs) :
    ∃ run payload runs', runPart X committedPayload part = .ok run ∧
      runsFrom X (some payload) rest = .ok runs' ∧ runs = run :: runs' := by
  obtain ⟨run, hrun, hnext⟩ := bind_eq_ok.mp h
  obtain ⟨next, hbuilt, hlater⟩ := bind_eq_ok.mp hnext
  obtain ⟨runs', hruns, heq⟩ := bind_eq_ok.mp hlater
  obtain ⟨payload, _, rfl, _⟩ := buildPart_eq_ok hbuilt
  exact ⟨run, payload, runs', hrun, hruns, (Except.ok.inj heq).symm⟩

theorem skip_along {payload : OpBuiltPayload Tx} {parts : List (Part Tx Db)}
    {runs : List (Run Tx Core)} (h : runsFrom X (some payload) parts = .ok runs) :
    List.Forall₂ (fun part run => SkipsPreExecution X part run.setup) parts runs := by
  induction parts generalizing payload runs with
  | nil =>
      cases h
      exact .nil
  | cons part rest ih =>
      obtain ⟨run, _, runs', hrun, hruns, rfl⟩ := runsFrom_cons h
      exact .cons (later_skips hrun) (ih hruns)

/-- The pre-execution changes are applied for the first part and for no other. -/
def OnlyFirstApplies (X : Crates Tx Db Core) (parts : List (Part Tx Db))
    (runs : List (Run Tx Core)) : Prop :=
  ∃ part rest run runs', parts = part :: rest ∧ runs = run :: runs' ∧
    AppliesPreExecution X part run.setup ∧
    List.Forall₂ (fun part run => SkipsPreExecution X part run.setup) rest runs'

theorem onlyFirstApplies {parts : List (Part Tx Db)} {runs : List (Run Tx Core)}
    (hne : parts ≠ []) (h : runsFrom X none parts = .ok runs) : OnlyFirstApplies X parts runs := by
  cases parts with
  | nil => exact absurd rfl hne
  | cons part rest =>
      obtain ⟨run, _, runs', hrun, hruns, rfl⟩ := runsFrom_cons h
      exact ⟨part, rest, run, runs', rfl, rfl, first_applies hrun, skip_along hruns⟩

/-! The nonces in the receipts of deposits are the only part that depends on
where a block is cut. -/

def withoutNonce : OpReceipt → OpReceipt
  | .deposit receipt _ version => .deposit receipt none version
  | receipt => receipt

def Charge.withoutNonce (charge : Charge Tx) : Charge Tx := { charge with depositNonce := none }

def Tally.withoutNonces (tally : Tally) : Tally :=
  { tally with receipts := tally.receipts.map Cut.withoutNonce }

theorem withoutNonce_buildReceipt (tx : Tx) (result : ExecutionResult) (gasUsed : UInt64)
    (nonce : Option UInt64) (chainSpec : OpChainSpec) (timestamp : UInt64) :
    withoutNonce (buildReceipt X tx result gasUsed nonce chainSpec timestamp) =
      buildReceipt X tx result gasUsed none chainSpec timestamp := by
  unfold buildReceipt
  cases X.txType tx <;> rfl

theorem tallyFrom_withoutNonce (terms : Terms) (start : Tally) (charges : List (Charge Tx)) :
    tallyFrom X terms start.withoutNonces (charges.map Charge.withoutNonce) =
      (tallyFrom X terms start charges).withoutNonces := by
  rw [tallyFrom, List.foldl_map]
  apply List.foldl_hom
  intro tally charge
  simp [Tally.add, Tally.withoutNonces, Charge.withoutNonce, withoutNonce_buildReceipt]

theorem tallyFrom_length (terms : Terms) (start : Tally) (charges : List (Charge Tx)) :
    (tallyFrom X terms start charges).receipts.length = start.receipts.length + charges.length := by
  induction charges generalizing start with
  | nil => rfl
  | cons charge rest ih =>
      rw [tallyFrom, List.foldl_cons]
      have h := ih (start.add X terms charge)
      rw [tallyFrom] at h
      rw [h]
      simp [Tally.add]
      omega

def receiptNonce : OpReceipt → Option UInt64
  | .deposit _ nonce _ => nonce
  | .legacy _ | .eip2930 _ | .eip1559 _ | .eip7702 _ => none

/-- Only deposits are charged with a nonce. -/
def Charge.Sound (X : Crates Tx Db Core) (charge : Charge Tx) : Prop :=
  X.isDeposit charge.tx = false → charge.depositNonce = none

theorem sound_chargesOf (X : Crates Tx Db Core) (runs : List (Run Tx Core)) :
    ∀ charge ∈ chargesOf X runs, charge.Sound X := by
  intro charge hmem hregular
  obtain ⟨run, _, hcharge⟩ := List.mem_flatMap.mp hmem
  obtain ⟨result, _, rfl⟩ := List.mem_map.mp hcharge
  simp only [chargeOf] at hregular ⊢
  unfold depositNonce
  rw [hregular]
  rfl

theorem receiptNonce_buildReceipt {charge : Charge Tx} (h : charge.Sound X) (gasUsed : UInt64)
    (chainSpec : OpChainSpec) (timestamp : UInt64) :
    receiptNonce (buildReceipt X charge.tx charge.result gasUsed charge.depositNonce chainSpec
      timestamp) = charge.depositNonce := by
  unfold Charge.Sound Crates.isDeposit at h
  unfold buildReceipt
  cases htype : X.txType charge.tx with
  | deposit => rfl
  | legacy | eip2930 | eip1559 | eip7702 =>
      rw [h (by simp [htype])]
      rfl

theorem nonces_of_tallyFrom (terms : Terms) (start : Tally) {charges : List (Charge Tx)}
    (h : ∀ charge ∈ charges, charge.Sound X) :
    (tallyFrom X terms start charges).receipts.map receiptNonce =
      start.receipts.map receiptNonce ++ charges.map Charge.depositNonce := by
  induction charges generalizing start with
  | nil => simp [tallyFrom]
  | cons charge rest ih =>
      have hrest := ih (start.add X terms charge) fun c hc => h c (List.mem_cons_of_mem _ hc)
      have hfirst := receiptNonce_buildReceipt (h charge List.mem_cons_self)
        (start.gasUsed + charge.result.gasUsed) terms.chainSpec terms.timestamp
      rw [tallyFrom] at hrest
      rw [tallyFrom, List.foldl_cons, hrest]
      simp [Tally.add, hfirst]

/-- What is read off the j-th transaction of the block is a function of j. -/
def ByPosition (X : Crates Tx Db Core) {α : Type} (view : Charge Tx → α)
    (parts : List (Part Tx Db)) (values : Nat → α) : Prop :=
  ∀ runs, runsFrom X none parts = .ok runs →
    ∀ j (hj : j < (chargesOf X runs).length), view (chargesOf X runs)[j] = values j

theorem map_eq_of_byPosition {α : Type} {view : Charge Tx → α} {parts parts' : List (Part Tx Db)}
    {values : Nat → α} {runs runs' : List (Run Tx Core)} (h : ByPosition X view parts values)
    (h' : ByPosition X view parts' values) (hruns : runsFrom X none parts = .ok runs)
    (hruns' : runsFrom X none parts' = .ok runs')
    (hlength : (chargesOf X runs).length = (chargesOf X runs').length) :
    (chargesOf X runs).map view = (chargesOf X runs').map view := by
  apply List.ext_getElem (by simpa using hlength)
  intro j hj hj'
  rw [List.length_map] at hj hj'
  rw [List.getElem_map, List.getElem_map, h runs hruns j hj, h' runs' hruns' j hj']

theorem byPosition_of_map {α : Type} {view : Charge Tx → Option α} {parts : List (Part Tx Db)}
    {views : List (Option α)} {runs : List (Run Tx Core)}
    (hruns : runsFrom X none parts = .ok runs) (h : (chargesOf X runs).map view = views) :
    ByPosition X view parts fun j => views[j]?.join := by
  intro runs' hruns' j hj
  rw [hruns] at hruns'
  cases hruns'
  simp [← h, hj]

/-- The payloads have the same transactions, gas and fees, and the same receipts
up to the nonces of deposits, one for each transaction. -/
structure SameBlock (last single : OpBuiltPayload Tx) : Prop where
  transactions : last.block.body.transactions = single.block.body.transactions
  gasUsed : last.block.header.gasUsed = single.block.header.gasUsed
  fees : last.fees = single.fees
  oneReceiptEach : last.receipts.length = last.block.body.transactions.length
  receipts : last.receipts.map withoutNonce = single.receipts.map withoutNonce

theorem charges_eq {charges charges' : List (Charge Tx)}
    (htx : charges.map Charge.tx = charges'.map Charge.tx)
    (hresult : charges.map Charge.result = charges'.map Charge.result)
    (hnonce : charges.map Charge.depositNonce = charges'.map Charge.depositNonce) :
    charges = charges' := by
  induction charges generalizing charges' with
  | nil => exact (List.map_eq_nil_iff.mp htx.symm).symm
  | cons charge rest ih =>
      cases charges' with
      | nil => cases htx
      | cons charge' rest' =>
          obtain ⟨hfirstTx, hrestTx⟩ := List.cons.inj htx
          obtain ⟨hfirstResult, hrestResult⟩ := List.cons.inj hresult
          obtain ⟨hfirstNonce, hrestNonce⟩ := List.cons.inj hnonce
          rw [Charge.ext hfirstTx hfirstResult hfirstNonce, ih hrestTx hrestResult hrestNonce]

theorem sameBlock_of_accounts {terms : Terms} {charges charges' : List (Charge Tx)}
    {last single : OpBuiltPayload Tx} (hlast : Accounts X terms charges (some last))
    (hsingle : Accounts X terms charges' (some single))
    (htx : charges.map Charge.tx = charges'.map Charge.tx)
    (hresult : charges.map Charge.result = charges'.map Charge.result) :
    SameBlock last single := by
  have hsame : charges.map Charge.withoutNonce = charges'.map Charge.withoutNonce := by
    have hlength : charges.length = charges'.length := by simpa using congrArg List.length htx
    apply charges_eq
    · simpa [Charge.withoutNonce, Function.comp_def] using htx
    · simpa [Charge.withoutNonce, Function.comp_def] using hresult
    · simp [Charge.withoutNonce, Function.comp_def, hlength]
  have htally : (tallyOfPayload last).withoutNonces = (tallyOfPayload single).withoutNonces := by
    rw [hlast.2, hsingle.2, ← tallyFrom_withoutNonce, ← tallyFrom_withoutNonce, hsame]
  have hcount : last.receipts.length = charges.length := by
    have h := congrArg (fun tally : Tally => tally.receipts.length) hlast.2
    exact h.trans ((tallyFrom_length terms {} charges).trans (Nat.zero_add _))
  refine ⟨?_, congrArg Tally.gasUsed htally, congrArg Tally.fees htally, ?_,
    congrArg Tally.receipts htally⟩
  · rw [hlast.1, htx, hsingle.1]
  · rw [hcount, hlast.1, List.length_map]

theorem charges_tx {parts : List (Part Tx Db)} {runs : List (Run Tx Core)} {start : Nat}
    (h : (runs.flatMap (·.results)).map (fun result => (result.tx.inner, result.index)) =
      (parts.flatMap Part.values).zipIdx start) :
    (chargesOf X runs).map Charge.tx = parts.flatMap Part.values := by
  have htx := congrArg (List.map Prod.fst) h
  rw [List.zipIdx_map_fst, List.map_map] at htx
  rw [← htx, chargesOf, List.map_flatMap, List.map_flatMap]
  simp only [Run.charges, List.map_map]
  rfl

/-- Where a block is cut makes no difference to its transactions, gas and fees, and none to its
receipts exactly when the nonces read for deposits are a function of the position. -/
theorem cut_irrelevant (hlaws : RecoverLaws X) {parts : List (Part Tx Db)} {whole : Part Tx Db}
    (hcut : whole.values = parts.flatMap Part.values)
    (hterms : ∀ part ∈ parts, part.terms = whole.terms) {results : Nat → ExecutionResult}
    (hresults : ByPosition X Charge.result parts results)
    (hresults' : ByPosition X Charge.result [whole] results) {last single : OpBuiltPayload Tx}
    (hlast : buildFrom X none parts = .ok (some last))
    (hsingle : buildFrom X none [whole] = .ok (some single)) :
    (∃ runs, runsFrom X none parts = .ok runs ∧
      (runs.flatMap (·.results)).map (fun result => (result.tx.inner, result.index)) =
        whole.values.zipIdx 1 ∧
      OnlyFirstApplies X parts runs) ∧
    SameBlock last single ∧
    (last.receipts = single.receipts ↔ ∃ nonces,
      ByPosition X Charge.depositNonce parts nonces ∧
        ByPosition X Charge.depositNonce [whole] nonces) := by
  have hne : parts ≠ [] := by
    rintro rfl
    cases hlast
  have hempty : Accounts X whole.terms [] (none : Option (OpBuiltPayload Tx)) := rfl
  have hwhole : ∀ part ∈ [whole], part.terms = whole.terms := by simp
  obtain ⟨runs, hruns, haccounts, hindexed⟩ := accounts_along hlaws hempty hterms hlast
  obtain ⟨runs', hruns', haccounts', hindexed'⟩ := accounts_along hlaws hempty hwhole hsingle
  rw [List.nil_append] at haccounts haccounts'
  have htx : (chargesOf X runs).map Charge.tx = (chargesOf X runs').map Charge.tx := by
    rw [charges_tx hindexed, charges_tx hindexed', ← hcut, List.flatMap_singleton]
  have hlength : (chargesOf X runs).length = (chargesOf X runs').length := by
    simpa using congrArg List.length htx
  have hresult := map_eq_of_byPosition hresults hresults' hruns hruns' hlength
  refine ⟨⟨runs, hruns, ?_, onlyFirstApplies hne hruns⟩,
    sameBlock_of_accounts haccounts haccounts' htx hresult, ?_⟩
  · rw [hindexed, hcut]
    rfl
  have hreceipts := congrArg Tally.receipts haccounts.2
  have hreceipts' := congrArg Tally.receipts haccounts'.2
  constructor
  · intro hsame
    have hnonces : (chargesOf X runs).map Charge.depositNonce =
        (chargesOf X runs').map Charge.depositNonce := by
      have h := nonces_of_tallyFrom whole.terms {} (sound_chargesOf X runs)
      have h' := nonces_of_tallyFrom whole.terms {} (sound_chargesOf X runs')
      rw [← hreceipts] at h
      rw [← hreceipts'] at h'
      exact h.symm.trans ((congrArg (List.map receiptNonce) hsame).trans h')
    exact ⟨_, byPosition_of_map hruns rfl, byPosition_of_map hruns' hnonces.symm⟩
  · rintro ⟨nonces, hnonces, hnonces'⟩
    have hnonce := map_eq_of_byPosition hnonces hnonces' hruns hruns' hlength
    have htally := haccounts.2
    rw [charges_eq htx hresult hnonce, ← haccounts'.2] at htally
    exact congrArg Tally.receipts htally

/-! On the sample chain, where every transaction has the same result. -/

def samplePart (transactions : List SampleTx) : Part SampleTx SampleDb where
  db := {}
  stateProvider := {}
  ctx := sampleCtx transactions
  bal := none
  evmEnv := {}
  extraData := []

def sampleDeposit (signer : Address) : SampleTx := { signer := signer, kind := .deposit }

theorem samplePart_terms (cut : List (List SampleTx)) (transactions : List SampleTx) :
    ∀ part ∈ cut.map samplePart, part.terms = (samplePart transactions).terms := by
  intro part hpart
  obtain ⟨_, _, rfl⟩ := List.mem_map.mp hpart
  rfl

theorem byPosition_of_eval {α : Type} {view : Charge Tx → α} {parts : List (Part Tx Db)}
    {values : Nat → α} {n : Nat}
    (h : (runsFrom X none parts).map (fun runs => (chargesOf X runs).map view) =
      .ok ((List.range n).map values)) : ByPosition X view parts values := by
  intro runs hruns j hj
  rw [hruns] at h
  have hviews : (chargesOf X runs).map view = (List.range n).map values := Except.ok.inj h
  have hget := List.getElem_of_eq hviews (by rwa [List.length_map])
  rw [List.getElem_map, List.getElem_map, List.getElem_range] at hget
  exact hget

theorem cut_irrelevant_three_parts :
    ∃ last single,
      buildFrom sample none ([[sampleDeposit 1], [], [sampleDeposit 2]].map samplePart) =
        .ok (some last) ∧
      buildFrom sample none [samplePart [sampleDeposit 1, sampleDeposit 2]] = .ok (some single) ∧
      SameBlock last single ∧ last.receipts = single.receipts := by
  have hbuilds : (buildFrom sample none
      ([[sampleDeposit 1], [], [sampleDeposit 2]].map samplePart)).map Option.isSome = .ok true := by
    decide +kernel
  have hbuilds' : (buildFrom sample none
      [samplePart [sampleDeposit 1, sampleDeposit 2]]).map Option.isSome = .ok true := by
    decide +kernel
  obtain ⟨_, hlast, hsome⟩ := map_eq_ok.mp hbuilds
  obtain ⟨_, hsingle, hsome'⟩ := map_eq_ok.mp hbuilds'
  obtain ⟨last, rfl⟩ := Option.isSome_iff_exists.mp hsome
  obtain ⟨single, rfl⟩ := Option.isSome_iff_exists.mp hsome'
  have hresults : ByPosition sample Charge.result
      ([[sampleDeposit 1], [], [sampleDeposit 2]].map samplePart) fun _ => ⟨true, 21000, []⟩ :=
    @byPosition_of_eval _ _ _ _ _ _ _ _ 2 (by decide +kernel)
  have hresults' : ByPosition sample Charge.result
      [samplePart [sampleDeposit 1, sampleDeposit 2]] fun _ => ⟨true, 21000, []⟩ :=
    @byPosition_of_eval _ _ _ _ _ _ _ _ 2 (by decide +kernel)
  have hnonces : ByPosition sample Charge.depositNonce
      ([[sampleDeposit 1], [], [sampleDeposit 2]].map samplePart) fun _ => none :=
    @byPosition_of_eval _ _ _ _ _ _ _ _ 2 (by decide +kernel)
  have hnonces' : ByPosition sample Charge.depositNonce
      [samplePart [sampleDeposit 1, sampleDeposit 2]] fun _ => none :=
    @byPosition_of_eval _ _ _ _ _ _ _ _ 2 (by decide +kernel)
  obtain ⟨_, hsame, hreceipts⟩ := cut_irrelevant sample_recoverLaws rfl (samplePart_terms _ _)
    hresults hresults' hlast hsingle
  exact ⟨last, single, hlast, hsingle, hsame, hreceipts.mpr ⟨_, hnonces, hnonces'⟩⟩

/-- Two deposits of one sender: cut in two, the second is given the nonce that
the first has left; in one part, both are given the nonce before the block. -/
theorem deposit_nonce_by_cut :
    ¬∀ (parts : List (Part SampleTx SampleDb)) (whole : Part SampleTx SampleDb)
      (results : Nat → ExecutionResult) (last single : OpBuiltPayload SampleTx),
      whole.values = parts.flatMap Part.values → (∀ part ∈ parts, part.terms = whole.terms) →
      ByPosition sample Charge.result parts results →
      ByPosition sample Charge.result [whole] results →
      buildFrom sample none parts = .ok (some last) →
      buildFrom sample none [whole] = .ok (some single) →
        last.receipts = single.receipts := by
  intro hall
  have hlast : (buildFrom sample none
      ([[sampleDeposit 1], [sampleDeposit 1]].map samplePart)).map (·.map (·.receipts)) =
        .ok (some [.deposit ⟨true, 21000, []⟩ none (some 1),
          .deposit ⟨true, 42000, []⟩ (some 1) (some 1)]) := by decide +kernel
  have hsingle : (buildFrom sample none
      [samplePart [sampleDeposit 1, sampleDeposit 1]]).map (·.map (·.receipts)) =
        .ok (some [.deposit ⟨true, 21000, []⟩ none (some 1),
          .deposit ⟨true, 42000, []⟩ none (some 1)]) := by decide +kernel
  obtain ⟨_, hlastBuilt, hlastReceipts⟩ := map_eq_ok.mp hlast
  obtain ⟨_, hsingleBuilt, hsingleReceipts⟩ := map_eq_ok.mp hsingle
  obtain ⟨last, rfl, hreceipts⟩ := Option.map_eq_some_iff.mp hlastReceipts
  obtain ⟨single, rfl, hreceipts'⟩ := Option.map_eq_some_iff.mp hsingleReceipts
  have hsame := hall _ _ (fun _ => ⟨true, 21000, []⟩) last single rfl (samplePart_terms _ _)
    (@byPosition_of_eval _ _ _ _ _ _ _ _ 2 (by decide +kernel))
    (@byPosition_of_eval _ _ _ _ _ _ _ _ 2 (by decide +kernel)) hlastBuilt hsingleBuilt
  rw [hreceipts, hreceipts'] at hsame
  revert hsame
  decide

end WorldChain.Builder.Cut
