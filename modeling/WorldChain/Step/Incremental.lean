import WorldChain.Step.Partition

/-! Building a block flashblock by flashblock comes to building it at once: the
receipts, gas and fees carried over by the barriers are those of the history. -/
namespace WorldChain.Step.Incremental
open Library.Fallible Library.Runs
open Wire.Primitives Deps.Revm Deps.Reth Deps.Calls Deps.Concrete
open Builder.Assemble Publish GasUsed SameHeader Job Sealed Step.Partition

variable {Tx Db Core : Type}

def staged : Entry Tx → Option (Checkpoint Tx)
  | .checkpoint checkpoint => some checkpoint
  | .barrier _ => none

def NoBuiltPayload (entries : List (Entry Tx)) : Prop :=
  ∀ entry ∈ entries, ∀ context ∈ entry.context, context.maybeBuiltPayload = none

/-- The loop over the whole history, from a fresh state. -/
def totalsAtOnce (X : Crates Tx Db Core) (ctx : StepContext Tx Db) (payload : Payload Tx) :
    Except Failure Totals :=
  payload.history.foldlM (addCheckpoint X payload ctx) { bundle := payload.block.baseBundleState }

/-- Totals up to the bundle, whose reverts are flattened at every flashblock. -/
structure SameTotals (left right : Totals) : Prop where
  receipts : left.receipts = right.receipts
  fees : left.fees = right.fees
  cumulativeGasUsed : left.cumulativeGasUsed = right.cumulativeGasUsed

theorem SameTotals.refl (totals : Totals) : SameTotals totals totals := ⟨rfl, rfl, rfl⟩

theorem SameTotals.trans {left middle right : Totals} (h : SameTotals left middle)
    (h' : SameTotals middle right) : SameTotals left right where
  receipts := h.receipts.trans h'.receipts
  fees := h.fees.trans h'.fees
  cumulativeGasUsed := h.cumulativeGasUsed.trans h'.cumulativeGasUsed

structure Holds (builtPayload : OpBuiltPayload Tx) (totals : Totals) : Prop where
  receipts : builtPayload.executedBlock.map (fun executed => executed.executionOutput.receipts) =
    some [totals.receipts]
  fees : builtPayload.fees = totals.fees
  gasUsed : builtPayload.block.header.gasUsed = totals.cumulativeGasUsed

theorem Holds.congr {builtPayload : OpBuiltPayload Tx} {left right : Totals}
    (hholds : Holds builtPayload left) (h : SameTotals left right) : Holds builtPayload right where
  receipts := by rw [← h.receipts, hholds.receipts]
  fees := hholds.fees.trans h.fees
  gasUsed := hholds.gasUsed.trans h.cumulativeGasUsed

structure SameBlock (left right : OpBuiltPayload Tx) : Prop where
  transactions : left.block.body.transactions = right.block.body.transactions
  receipts : left.receipts = right.receipts
  gasUsed : left.block.header.gasUsed = right.block.header.gasUsed
  fees : left.fees = right.fees

def Executed (checkpoint : Checkpoint Tx) : Prop :=
  checkpoint.transactions ≠ [] → ∃ state results, checkpoint.state = some state ∧
    checkpoint.result = some results ∧ results.length = checkpoint.transactions.length

variable {X : Crates Tx Db Core} {R : CheckpointExt Tx} {debugAssertions : Bool}
  {ctx : StepContext Tx Db}

theorem receipts_of_holds {builtPayload : OpBuiltPayload Tx} {totals : Totals}
    (h : Holds builtPayload totals) : builtPayload.receipts = totals.receipts := by
  obtain ⟨executed, hexecuted, hone⟩ := Option.map_eq_some_iff.mp h.receipts
  rw [OpBuiltPayload.receipts, hexecuted, Option.map_some, hone]
  simp

/-! The loop does not look at the bundle, and asks of the payload its block. -/

theorem addTransaction_agree {payload payload' : Payload Tx} (hblock : payload.block = payload'.block)
    (checkpoint : Checkpoint Tx) (results : List ExecutionResult) {left right : Totals}
    (h : SameTotals left right) (indexed : Recovered Tx × Nat) :
    Agree SameTotals (addTransaction X payload ctx checkpoint results left indexed)
      (addTransaction X payload' ctx checkpoint results right indexed) := by
  unfold addTransaction checkpointReceipt
  rw [hblock, h.cumulativeGasUsed]
  apply Agree.bind_left
  intro result _
  apply Agree.bind_left
  intro fee _
  apply Agree.bind_left
  intro receipt _
  exact ⟨by rw [h.receipts], by rw [h.fees], rfl⟩

theorem addCheckpoint_agree {payload payload' : Payload Tx} (hblock : payload.block = payload'.block)
    {left right : Totals} (h : SameTotals left right) (checkpoint : Checkpoint Tx) :
    Agree SameTotals (addCheckpoint X payload ctx left checkpoint)
      (addCheckpoint X payload' ctx right checkpoint) := by
  unfold addCheckpoint
  cases checkpoint.state with
  | none => exact h
  | some state =>
      cases checkpoint.result with
      | none => exact ⟨h.receipts, h.fees, h.cumulativeGasUsed⟩
      | some results =>
          have hsameTxs : List.Forall₂ Eq checkpoint.transactions.zipIdx
              checkpoint.transactions.zipIdx := List.forall₂_refl _
          refine Agree.foldlM ?_ hsameTxs ⟨h.receipts, h.fees, h.cumulativeGasUsed⟩
          intro left right indexed indexed' hsame heq
          rw [heq]
          exact addTransaction_agree hblock checkpoint results hsame indexed'

theorem addCheckpoints_agree {payload payload' : Payload Tx}
    (hblock : payload.block = payload'.block) (checkpoints : List (Checkpoint Tx))
    {left right : Totals} (h : SameTotals left right) :
    Agree SameTotals (checkpoints.foldlM (addCheckpoint X payload ctx) left)
      (checkpoints.foldlM (addCheckpoint X payload' ctx) right) := by
  have hsameCheckpoints : List.Forall₂ Eq checkpoints checkpoints := List.forall₂_refl _
  refine Agree.foldlM ?_ hsameCheckpoints h
  intro left right checkpoint checkpoint' hsame heq
  rw [heq]
  exact addCheckpoint_agree hblock hsame checkpoint'

theorem addCheckpoints_staged (payload : Payload Tx) (entries : List (Entry Tx)) (totals : Totals) :
    (entries.map Entry.checkpointOf).foldlM (addCheckpoint X payload ctx) totals =
      (entries.filterMap staged).foldlM (addCheckpoint X payload ctx) totals := by
  induction entries generalizing totals with
  | nil => rfl
  | cons entry rest ih =>
      cases entry with
      | barrier context =>
          rw [List.map_cons, List.foldlM_cons]
          exact ih totals
      | checkpoint checkpoint =>
          have hstaged : (Entry.checkpoint checkpoint :: rest).filterMap staged =
              checkpoint :: rest.filterMap staged := rfl
          rw [hstaged, List.map_cons, List.foldlM_cons, List.foldlM_cons]
          exact congrArg _ (funext ih)

theorem transactions_staged (entries : List (Entry Tx)) :
    (entries.map Entry.checkpointOf).flatMap (·.transactions) =
      (entries.filterMap staged).flatMap (·.transactions) := by
  induction entries with
  | nil => rfl
  | cons entry rest ih =>
      cases entry with
      | barrier context => exact ih
      | checkpoint checkpoint => exact congrArg (checkpoint.transactions ++ ·) ih

theorem totalsAtOnce_congr (R' : CheckpointExt Tx) {entries entries' : List (Entry Tx)}
    (h : entries'.filterMap staged = entries.filterMap staged) {totals : Totals}
    (htotals : totalsAtOnce X ctx (payloadOf R ctx.block entries) = .ok totals) :
    ∃ totals', totalsAtOnce X ctx (payloadOf R' ctx.block entries') = .ok totals' ∧
      SameTotals totals totals' := by
  have hfold : (entries'.map Entry.checkpointOf).foldlM
      (addCheckpoint X (payloadOf R ctx.block entries) ctx)
        { bundle := ctx.block.baseBundleState } = .ok totals := by
    rw [addCheckpoints_staged, h, ← addCheckpoints_staged]
    exact htotals
  exact (addCheckpoints_agree rfl _ (.refl _)).of_ok hfold

/-! Where the loop starts. -/

theorem previous_fresh {entries : List (Entry Tx)} (h : NoBuiltPayload entries)
    (block : BlockContext Tx) :
    extractPreviousState debugAssertions (payloadOf R block entries) =
      .ok { bundle := block.baseBundleState } := by
  unfold extractPreviousState payloadOf
  dsimp only
  cases hbarrier : latestBarrier entries with
  | none => rfl
  | some context =>
      have hnone := h _ (mem_of_latestBarrier hbarrier) context rfl
      dsimp only
      rw [hnone]

/-- The debug assertion holds, as every built payload has one block of receipts. -/
theorem previous_holds {payload : Payload Tx} {builtPayload : OpBuiltPayload Tx} {totals : Totals}
    (hbarrier : payload.latestBarrier = some ⟨some builtPayload⟩) (h : Holds builtPayload totals) :
    ∃ previous, extractPreviousState debugAssertions payload = .ok previous ∧
      SameTotals previous totals := by
  obtain ⟨executed, hexecuted, hone⟩ := Option.map_eq_some_iff.mp h.receipts
  refine ⟨⟨executed.executionOutput.bundle, totals.receipts, builtPayload.fees,
    builtPayload.block.header.gasUsed⟩, ?_, rfl, h.fees, h.gasUsed⟩
  simp only [extractPreviousState, hbarrier, hexecuted, hone, orPanic, bind, Except.bind,
    List.length_singleton, ne_eq, not_true_eq_false, and_false, ↓reduceIte, List.head?_cons]
  rfl

def AtOnce (X : Crates Tx Db Core) (ctx : StepContext Tx Db) (payload : Payload Tx)
    (builtPayload : OpBuiltPayload Tx) : Prop :=
  ∃ totals, totalsAtOnce X ctx payload = .ok totals ∧ Holds builtPayload totals

theorem holds_sealPayload {id : PayloadId} {header : Header} {txs : List (Recovered Tx)}
    {list : Option BlockAccessList} {bundle : BundleState} {totals : Totals} {firstBlock : UInt64}
    (hgas : header.gasUsed = totals.cumulativeGasUsed) :
    Holds (sealPayload id header txs list bundle totals.receipts totals.fees firstBlock) totals :=
  ⟨rfl, rfl, hgas⟩

theorem atOnce_of_built {published : List (Published Tx)} {step : PublishFlashblock Tx}
    {entries : List (Entry Tx)} {builtPayload : OpBuiltPayload Tx}
    (hspan : Span X R debugAssertions ctx published step entries)
    (hfresh : published = [] → NoBuiltPayload entries)
    (hlast : ∀ last ∈ published.getLast?, AtOnce X ctx last.payload last.builtPayload)
    (hbuilt : buildOpBuiltPayload X debugAssertions step (payloadOf R ctx.block entries) ctx =
      .ok builtPayload) :
    AtOnce X ctx (payloadOf R ctx.block entries) builtPayload := by
  obtain ⟨previous, totals, roots, stateRoot, hprevious, htotals, _, _, hsealed⟩ :=
    built_sealed hbuilt
  have hholds : Holds builtPayload totals := by
    rw [hsealed]
    exact holds_sealPayload rfl
  cases hspan with
  | first hnone hnumber =>
      rw [unpublished_first hnumber] at htotals
      rw [previous_fresh (hfresh hnone)] at hprevious
      cases hprevious
      exact ⟨totals, htotals, hholds⟩
  | next last earlier before behind hgetLast hnumber hentries hbehind hmade =>
      obtain ⟨carried, hcarried, hcarriedHolds⟩ := hlast last hgetLast
      rw [hmade.spans] at hcarried
      have hbarrier : (payloadOf R ctx.block entries).latestBarrier =
          some ⟨some last.builtPayload⟩ := by
        rw [hentries]
        exact latestBarrier_append_barrier before behind _ hbehind
      have hextract : ∃ found, extractPreviousState debugAssertions (payloadOf R ctx.block entries) =
          .ok found ∧ SameTotals found carried := previous_holds hbarrier hcarriedHolds
      obtain ⟨found, hfound, hsame⟩ := hextract
      rw [hprevious] at hfound
      cases hfound
      -- the same checkpoints, before and behind the barrier, from the fresh state
      obtain ⟨carried', hcarried', hsame'⟩ := (addCheckpoints_agree rfl _ (.refl _)).of_ok
        (show (before.map Entry.checkpointOf).foldlM
          (addCheckpoint X (payloadOf R ctx.block before) ctx) _ = .ok carried from hcarried)
      rw [hentries, unpublished_next hnumber hbehind] at htotals
      obtain ⟨totals', htotals', hsameTotals⟩ :=
        (addCheckpoints_agree rfl _ (hsame.trans hsame')).of_ok htotals
      refine ⟨totals', ?_, hholds.congr hsameTotals⟩
      rw [hentries, totalsAtOnce, payloadOf]
      dsimp only
      rw [List.map_append, List.map_cons, List.foldlM_append]
      exact bind_eq_ok.mpr ⟨carried', hcarried', htotals'⟩

/-! One receipt for each transaction. -/

theorem addTransaction_receipts {payload : Payload Tx} {checkpoint : Checkpoint Tx}
    {results : List ExecutionResult} {totals totals' : Totals} {indexed : Recovered Tx × Nat}
    (h : addTransaction X payload ctx checkpoint results totals indexed = .ok totals') :
    totals'.receipts.length = totals.receipts.length + 1 := by
  obtain ⟨result, _, hrest⟩ := bind_eq_ok.mp h
  obtain ⟨fee, _, hrest⟩ := bind_eq_ok.mp hrest
  obtain ⟨receipt, _, heq⟩ := bind_eq_ok.mp hrest
  rw [← Except.ok.inj heq]
  simp

theorem addCheckpoint_receipts {payload : Payload Tx} {checkpoint : Checkpoint Tx}
    (hexecuted : Executed checkpoint) {totals totals' : Totals}
    (h : addCheckpoint X payload ctx totals checkpoint = .ok totals') :
    totals'.receipts.length = totals.receipts.length + checkpoint.transactions.length := by
  unfold addCheckpoint at h
  by_cases hnone : checkpoint.transactions = []
  · rw [hnone] at h ⊢
    split at h
    · cases h
      rfl
    · split at h
      · cases h
        rfl
      · cases h
        rfl
  · obtain ⟨state, results, hstate, hresults, _⟩ := hexecuted hnone
    rw [hstate, hresults] at h
    dsimp only at h
    have hview := foldlM_view (fun totals : Totals => totals.receipts.length) (fun n _ => n + 1)
      (fun _ _ _ => addTransaction_receipts) h
    rw [List.foldl_add_const, List.length_zipIdx, Nat.one_mul] at hview
    exact hview

theorem addCheckpoints_receipts {payload : Payload Tx} {checkpoints : List (Checkpoint Tx)}
    (hexecuted : ∀ checkpoint ∈ checkpoints, Executed checkpoint) {totals totals' : Totals}
    (h : checkpoints.foldlM (addCheckpoint X payload ctx) totals = .ok totals') :
    totals'.receipts.length =
      totals.receipts.length + (checkpoints.flatMap (·.transactions)).length := by
  induction checkpoints generalizing totals with
  | nil =>
      cases h
      rfl
  | cons checkpoint rest ih =>
      obtain ⟨next, hnext, hrest⟩ := bind_eq_ok.mp h
      have hfirst := addCheckpoint_receipts (hexecuted checkpoint List.mem_cons_self) hnext
      have hlater := ih (fun later hlater => hexecuted later (List.mem_cons_of_mem _ hlater)) hrest
      rw [List.flatMap_cons, List.length_append]
      omega

/-! Whole jobs. -/

/-- Until a flashblock is published no barrier holds a payload, and afterwards
the last one holds the totals of its history. -/
def Carried (X : Crates Tx Db Core) (ctx : StepContext Tx Db)
    (reached : PayloadJob Tx × List (Published Tx)) : Prop :=
  (reached.2 = [] → NoBuiltPayload reached.1.entries) ∧
    (indices reached.2 = List.range reached.2.length →
      ∀ last ∈ reached.2.getLast?, AtOnce X ctx last.payload last.builtPayload)

theorem noBuiltPayload_concat {entries : List (Entry Tx)} (h : NoBuiltPayload entries)
    {entry : Entry Tx} (hentry : ∀ context ∈ entry.context, context.maybeBuiltPayload = none) :
    NoBuiltPayload (entries ++ [entry]) := by
  intro found hmem
  rcases List.mem_append.mp hmem with hold | hnew
  · exact h found hold
  · rw [List.mem_singleton.mp hnew]
    exact hentry

theorem carried_act {reached : PayloadJob Tx × List (Published Tx)}
    (hheld : Held X R debugAssertions ctx reached) (hcarried : Carried X ctx reached)
    {action : Action Tx Db} (hprologue : Prologue reached action) :
    Carried X ctx ((act X R debugAssertions ctx reached.1 action).1,
      reached.2 ++ (act X R debugAssertions ctx reached.1 action).2) := by
  obtain ⟨hfresh, hlast⟩ := hcarried
  cases action with
  | add checkpoint =>
      rw [act, List.append_nil]
      refine ⟨fun hnone => noBuiltPayload_concat (hfresh hnone) ?_, hlast⟩
      intro context hcontext
      cases hcontext
  | barrier context =>
      rw [act, List.append_nil]
      refine ⟨fun hnone => noBuiltPayload_concat (hfresh hnone) ?_, hlast⟩
      intro found hfound
      cases hfound
      exact hprologue.2
  | elsewhere call =>
      rw [act, List.append_nil]
      exact ⟨hfresh, hlast⟩
  | publish now =>
      have houtcome := publish_outcome X R debugAssertions ctx reached.1 now
      generalize act X R debugAssertions ctx reached.1 (.publish now) = done at houtcome ⊢
      cases houtcome with
      | refused next hbase =>
          rw [List.append_nil]
          exact ⟨hfresh, hlast⟩
      | accepted next published isNew hbase hnumber hmade hpush =>
          refine ⟨fun hnone => absurd hnone (by simp), ?_⟩
          intro hindices last hgetLast
          rw [List.getLast?_concat] at hgetLast
          cases hgetLast
          obtain ⟨hbefore, hindex⟩ := indices_concat hindices
          rw [index_of_made hmade] at hindex
          rw [hmade.spans]
          exact atOnce_of_built (span_of_held hheld hindex) hfresh (hlast hbefore) hmade.built

theorem carried_along_run {self : PublishFlashblock Tx} {actions : List (Action Tx Db)}
    (h : Meets (act X R debugAssertions ctx) Prologue (begin ctx self) actions) :
    Held X R debugAssertions ctx (exec (act X R debugAssertions ctx) (begin ctx self) actions) ∧
      Carried X ctx (exec (act X R debugAssertions ctx) (begin ctx self) actions) := by
  apply exec_invariant (fun reached => Held X R debugAssertions ctx reached ∧
    Carried X ctx reached) ?_ ?_ h
  · exact ⟨(fun _ hlast => nomatch hlast), (fun _ _ hentry => nomatch hentry),
      fun _ _ hlast => nomatch hlast⟩
  · intro reached action hreached hprologue
    exact ⟨held_act hreached.1 (barriersFirst_of_prologue hprologue),
      carried_act hreached.1 hreached.2 hprologue⟩

theorem built_first {entries : List (Entry Tx)} (hfresh : NoBuiltPayload entries)
    {first : PublishFlashblock Tx} (hfirst : first.blockNumber = 0) {totals : Totals}
    (htotals : totalsAtOnce X ctx (payloadOf R ctx.block entries) = .ok totals) :
    buildOpBuiltPayload X debugAssertions first (payloadOf R ctx.block entries) ctx =
      assembleBlock X (payloadOf R ctx.block entries) ctx totals := by
  unfold totalsAtOnce at htotals
  rw [buildOpBuiltPayload, previous_fresh hfresh, unpublished_first hfirst]
  simp only [bind, Except.bind]
  rw [show ctx.block.baseBundleState = (payloadOf R ctx.block entries).block.baseBundleState from rfl,
    htotals]

/-- The flashblock published last, and the same checkpoints in a single first one. -/
theorem incremental_is_at_once {R' : CheckpointExt Tx} {debugAssertions' : Bool}
    {self first : PublishFlashblock Tx} {actions : List (Action Tx Db)} {now : Int}
    (hjob : Meets (act X R debugAssertions ctx) (AllAccepted X R debugAssertions ctx)
      (begin ctx self) (actions ++ [.publish now])) {job : PayloadJob Tx}
    (hreached : (exec (act X R debugAssertions ctx) (begin ctx self) actions).1 = job)
    (hexecuted : ∀ entry ∈ job.entries, Executed entry.checkpointOf)
    {builtPayload : OpBuiltPayload Tx}
    (hbuilt : buildOpBuiltPayload X debugAssertions job.step (payloadOf R ctx.block job.entries) ctx =
      .ok builtPayload)
    {entries : List (Entry Tx)}
    (hsame : entries.filterMap staged = job.entries.filterMap staged)
    (hfresh : NoBuiltPayload entries) (hfirst : first.blockNumber = 0) :
    let payload := payloadOf R' ctx.block entries
    (∃ totals, buildOpBuiltPayload X debugAssertions' first payload ctx =
        assembleBlock X payload ctx totals) ∧
      (∀ atOnce, buildOpBuiltPayload X debugAssertions' first payload ctx = .ok atOnce →
        SameBlock builtPayload atOnce) ∧
      builtPayload.receipts.length = builtPayload.block.body.transactions.length ∧
      builtPayload.block.header.gasUsed = gasOf builtPayload.receipts := by
  have hcounted := counted_along_run hjob.of_append
  have hprologue : Meets (act X R debugAssertions ctx) Prologue (begin ctx self) actions :=
    fun before action after heq => (hjob.of_append before action after heq).1
  obtain ⟨hheld, hnone, hlast⟩ := carried_along_run hprologue
  have haccepted := hjob.last.2
  generalize exec (act X R debugAssertions ctx) (begin ctx self) actions = reached
    at hcounted hheld hnone hlast haccepted hreached
  subst hreached
  have hspan : Span X R debugAssertions ctx reached.2 reached.1.step reached.1.entries := by
    apply span_of_held hheld
    obtain ⟨_, _, _, _, _, _, hmade, hpush⟩ := accepted_publish haccepted
    exact (number_of_accepted hcounted hmade hpush).1
  obtain ⟨totals, htotals, hholds⟩ :=
    atOnce_of_built hspan hnone (hlast hcounted.indices) hbuilt
  obtain ⟨totals', htotals', hsameTotals⟩ := totalsAtOnce_congr R' hsame htotals
  have htransactions : builtPayload.block.body.transactions =
      ((reached.1.entries.map Entry.checkpointOf).flatMap (·.transactions)).map (·.inner) :=
    (body_of_built hbuilt).1
  refine ⟨⟨totals', built_first hfresh hfirst htotals'⟩, ?_, ?_, ?_⟩
  · intro atOnce hatOnce
    have hfirstSpan : Span X R' debugAssertions' ctx [] first entries := .first rfl hfirst
    obtain ⟨found, hfound, hatOnceHolds⟩ :=
      atOnce_of_built hfirstSpan (fun _ => hfresh) (fun _ h => nomatch h) hatOnce
    rw [htotals'] at hfound
    cases hfound
    have hown := hholds.congr hsameTotals
    refine ⟨?_, ?_, hown.gasUsed.trans hatOnceHolds.gasUsed.symm,
      hown.fees.trans hatOnceHolds.fees.symm⟩
    · rw [htransactions, (body_of_built hatOnce).1, transactions_staged, ← hsame,
        ← transactions_staged]
      rfl
    · rw [receipts_of_holds hown, receipts_of_holds hatOnceHolds]
  · have hcount := addCheckpoints_receipts (fun checkpoint hmem => by
      obtain ⟨entry, hentry, rfl⟩ := List.mem_map.mp hmem
      exact hexecuted entry hentry) htotals
    rw [receipts_of_holds hholds, htransactions, List.length_map, hcount]
    simp [payloadOf]
  · have hstart : TotalsMatch { bundle := ctx.block.baseBundleState } := rfl
    have hmatch : TotalsMatch totals :=
      foldlM_invariant TotalsMatch (fun _ _ _ => totalsMatch_addCheckpoint) hstart htotals
    rw [receipts_of_holds hholds, hholds.gasUsed, hmatch]

/-! Two flashblocks behind a prologue, and the same two transactions at once. -/

def untilSecond : List (Action SampleTx SampleDb) :=
  [] ++ [.add (sampleCheckpoint 0)] ++ [.barrier {}] ++ [.publish 0] ++ [.add (sampleCheckpoint 1)]

def secondJob : PayloadJob SampleTx :=
  (exec (act sample sampleExt false sampleJob) (begin sampleJob ⟨.new none, 0, none⟩) untilSecond).1

def twoCheckpoints : List (Entry SampleTx) :=
  [.checkpoint (sampleCheckpoint 0), .checkpoint (sampleCheckpoint 1)]

theorem executed_secondJob : ∀ entry ∈ secondJob.entries, Executed entry.checkpointOf := by
  intro entry hentry
  cases entry with
  | barrier context => exact fun hne => absurd rfl hne
  | checkpoint checkpoint =>
      have hmem : checkpoint ∈ secondJob.entries.filterMap staged :=
        List.mem_filterMap.mpr ⟨_, hentry, rfl⟩
      have hpair : checkpoint ∈ [sampleCheckpoint 0, sampleCheckpoint 1] := hmem
      rcases List.mem_pair.mp hpair with rfl | rfl
      · exact fun _ => ⟨_, _, rfl, rfl, rfl⟩
      · exact fun _ => ⟨_, _, rfl, rfl, rfl⟩

theorem incremental_is_at_once_two_flashblocks : ∃ builtPayload atOnce,
    buildOpBuiltPayload sample false secondJob.step
        (payloadOf sampleExt sampleBlock secondJob.entries) sampleJob = .ok builtPayload ∧
      buildOpBuiltPayload sample false ⟨.new none, 0, none⟩
        (payloadOf sampleExt sampleBlock twoCheckpoints) sampleJob = .ok atOnce ∧
      SameBlock builtPayload atOnce := by
  have hfresh : NoBuiltPayload twoCheckpoints := by
    intro entry hentry context hcontext
    rcases List.mem_pair.mp hentry with rfl | rfl <;> cases hcontext
  have hsame : twoCheckpoints.filterMap staged = secondJob.entries.filterMap staged := rfl
  have hfirst : (⟨.new none, 0, none⟩ : PublishFlashblock SampleTx).blockNumber = 0 := rfl
  have hall := @incremental_is_at_once _ _ _ sample sampleExt false sampleJob sampleExt false _ _ _ _
    allAccepted_two secondJob rfl executed_secondJob _ rfl _ hsame hfresh hfirst
  exact ⟨_, _, rfl, rfl, hall.2.1 _ rfl⟩

end WorldChain.Step.Incremental
