import Mathlib.Data.List.Chain
import WorldChain.Step.Partition
import WorldChain.Wire.Reduce

/-! The block that the flashblocks of a job are converted back to, against the
block the job built for the last of them. -/
namespace WorldChain.Step.Rebuilt
open Library.Fallible Library.Runs
open Wire.Primitives Wire.Reduce Deps.Revm Deps.Reth Deps.Calls Deps.Concrete
open Builder.Assemble Publish SameHeader Job Step.Partition

variable {Tx Db Core : Type}

def txsOf (checkpoints : List (Checkpoint Tx)) : List (Recovered Tx) :=
  checkpoints.flatMap (·.transactions)

/-- Every transaction since the earlier flashblock is in the span of the later
one: no other barrier has cut it off. -/
def Joined (earlier later : Published Tx) : Prop :=
  txsOf later.payload.history =
    txsOf earlier.payload.history ++ txsOf later.payload.historyStaging

def Follows (earlier later : Published Tx) : Prop :=
  ∃ skipped, txsOf later.payload.history =
    txsOf earlier.payload.history ++ skipped ++ txsOf later.payload.historyStaging

def spanned : List (Published Tx) → List (Recovered Tx)
  | [] => []
  | first :: rest =>
      txsOf first.payload.history ++ rest.flatMap fun published =>
        txsOf published.payload.historyStaging

theorem spanned_concat {published : List (Published Tx)} (hne : published ≠ [])
    (next : Published Tx) :
    spanned (published ++ [next]) = spanned published ++ txsOf next.payload.historyStaging := by
  cases published with
  | nil => exact absurd rfl hne
  | cons first rest => simp [spanned]

/-- The spans have nothing that the history has not, and all of it exactly when
nothing is skipped. -/
theorem spanned_of_follows {published : List (Published Tx)} (h : published.IsChain Follows)
    {last : Published Tx} (hlast : last ∈ published.getLast?) :
    List.Sublist (spanned published) (txsOf last.payload.history) ∧
      (spanned published = txsOf last.payload.history ↔ published.IsChain Joined) := by
  induction published using List.reverseRecOn generalizing last with
  | nil => cases hlast
  | append_singleton published next ih =>
      rw [List.getLast?_concat] at hlast
      cases hlast
      cases hearlier : published.getLast? with
      | none =>
          rw [List.getLast?_eq_none_iff.mp hearlier]
          simp [spanned]
      | some earlier =>
          have hne : published ≠ [] := by
            rintro rfl
            cases hearlier
          obtain ⟨hbefore, _, hnext⟩ := List.isChain_append.mp h
          obtain ⟨hsub, heq⟩ := ih hbefore hearlier
          obtain ⟨skipped, hskipped⟩ := hnext earlier hearlier next rfl
          have hlength := hsub.length_le
          have hjoined : Joined earlier next ↔ skipped = [] := by
            rw [Joined, hskipped, List.append_assoc, List.append_right_inj,
              List.append_left_eq_self]
          rw [spanned_concat hne, hskipped, List.append_left_inj, List.isChain_append, ← heq]
          refine ⟨?_, ?_, ?_⟩
          · exact (hsub.trans (List.sublist_append_left _ skipped)).append (.refl _)
          · intro hspanned
            have hempty : skipped = [] := by
              rw [hspanned, List.length_append] at hlength
              apply List.eq_nil_of_length_eq_zero
              omega
            rw [hempty, List.append_nil] at hspanned
            refine ⟨hspanned, List.isChain_singleton _, ?_⟩
            intro x hx y hy
            rw [hearlier] at hx
            cases hx
            cases hy
            exact hjoined.mpr hempty
          · rintro ⟨hspanned, _, hlater⟩
            rw [hjoined.mp (hlater earlier hearlier next rfl), List.append_nil, hspanned]

/-! What a run leaves behind, whatever barriers other steps place. -/

variable {X : Crates Tx Db Core} {R : CheckpointExt Tx} {debugAssertions : Bool}
  {ctx : StepContext Tx Db}

structure Linked (X : Crates Tx Db Core) (R : CheckpointExt Tx) (debugAssertions : Bool)
    (ctx : StepContext Tx Db) (reached : PayloadJob Tx × List (Published Tx)) : Prop where
  base : reached.1.step.blockBase = some (executionPayloadBase ctx)
  made : ∀ published ∈ reached.2, ∃ step entries,
    step.blockBase = some (executionPayloadBase ctx) ∧
      Made X debugAssertions ctx step (payloadOf R ctx.block entries) published
  last : ∀ last ∈ reached.2.getLast?, ∃ before context after,
    reached.1.entries = before ++ .barrier context :: after ∧
      last.payload = payloadOf R ctx.block before
  chain : reached.2.IsChain Follows

theorem follows_of_entries {entries before after : List (Entry Tx)} {context : WorldContext Tx}
    (hentries : entries = before ++ .barrier context :: after) {block : BlockContext Tx}
    {earlier later : Published Tx} (hearlier : earlier.payload = payloadOf R block before)
    (hlater : later.payload = payloadOf R block entries) : Follows earlier later := by
  refine ⟨txsOf ((after.rdropWhile fun entry => entry.context.isNone).map Entry.checkpointOf), ?_⟩
  have hafter : after.rdropWhile (fun entry => entry.context.isNone) ++ staging after = after :=
    List.rdropWhile_append_rtakeWhile
  rw [hearlier, hlater, hentries]
  simp only [payloadOf, staging_behind_barrier, txsOf]
  conv_lhs => rw [← hafter]
  simp [Entry.checkpointOf]

theorem linked_act {reached : PayloadJob Tx × List (Published Tx)}
    (h : Linked X R debugAssertions ctx reached) (action : Action Tx Db) :
    Linked X R debugAssertions ctx ((act X R debugAssertions ctx reached.1 action).1,
      reached.2 ++ (act X R debugAssertions ctx reached.1 action).2) := by
  have hbase : (act X R debugAssertions ctx reached.1 action).1.step.blockBase =
      some (executionPayloadBase ctx) := (act_blockBase reached.1 action).trans h.base
  cases action with
  | add checkpoint =>
      rw [act, List.append_nil]
      refine ⟨hbase, h.made, ?_, h.chain⟩
      intro last hlast
      obtain ⟨before, context, after, hentries, hpayload⟩ := h.last last hlast
      exact ⟨before, context, after ++ [.checkpoint checkpoint], by simp [hentries], hpayload⟩
  | barrier context =>
      rw [act, List.append_nil]
      refine ⟨hbase, h.made, ?_, h.chain⟩
      intro last hlast
      obtain ⟨before, own, after, hentries, hpayload⟩ := h.last last hlast
      exact ⟨before, own, after ++ [.barrier context], by simp [hentries], hpayload⟩
  | elsewhere call =>
      rw [act, List.append_nil]
      exact ⟨hbase, h.made, h.last, h.chain⟩
  | publish now =>
      have houtcome := publish_outcome X R debugAssertions ctx reached.1 now
      generalize act X R debugAssertions ctx reached.1 (.publish now) = done at houtcome hbase ⊢
      cases houtcome with
      | refused next hkept =>
          rw [List.append_nil]
          exact ⟨hbase, h.made, h.last, h.chain⟩
      | accepted next published isNew hkept hnumber hmade hpush =>
          refine ⟨hbase, ?_, ?_, ?_⟩
          · intro other hother
            rcases List.mem_append.mp hother with hold | hnew
            · exact h.made other hold
            · rw [List.mem_singleton.mp hnew]
              exact ⟨_, _, h.base, hmade⟩
          · intro last hlast
            rw [List.getLast?_concat] at hlast
            cases hlast
            exact ⟨reached.1.entries, _, [], rfl, hmade.spans⟩
          · apply h.chain.append (List.isChain_singleton _)
            intro earlier hearlier later hlater
            cases hlater
            obtain ⟨before, context, after, hentries, hpayload⟩ := h.last earlier hearlier
            exact follows_of_entries hentries hpayload hmade.spans

theorem linked_along_run (self : PublishFlashblock Tx) (actions : List (Action Tx Db)) :
    Linked X R debugAssertions ctx (exec (act X R debugAssertions ctx) (begin ctx self) actions) := by
  have hmeets : Meets (act X R debugAssertions ctx) (fun _ _ => True) (begin ctx self) actions :=
    fun _ _ _ _ => trivial
  apply exec_invariant (Linked X R debugAssertions ctx) ?_ ?_ hmeets
  · exact ⟨rfl, (fun _ hmem => nomatch hmem), (fun _ hlast => nomatch hlast), .nil⟩
  · intro reached action hlinked _
    exact linked_act hlinked action

theorem encodedTxs_eq (X : Crates Tx Db Core) (checkpoints : List (Checkpoint Tx)) :
    encodedTxs X checkpoints = (txsOf checkpoints).map fun tx => X.encoded2718 tx.inner := by
  simp [encodedTxs, txsOf, List.map_flatMap]

theorem span_of_linked {reached : PayloadJob Tx × List (Published Tx)}
    (h : Linked X R debugAssertions ctx reached) {published : Published Tx}
    (hmem : published ∈ reached.2) :
    published.flashblock.diff.transactions =
      (if published.flashblock.flashblock.index.toNat = 0 then txsOf published.payload.history
        else txsOf published.payload.historyStaging).map fun tx => X.encoded2718 tx.inner := by
  obtain ⟨step, entries, _, hmade⟩ := h.made published hmem
  rw [transactions_of_made hmade, index_of_made hmade, ← hmade.spans, encodedTxs_eq,
    unpublishedPayload]
  by_cases hzero : step.blockNumber = 0
  · rw [if_pos hzero, hzero]
    rfl
  · have hne : step.blockNumber.toNat ≠ 0 := fun h => hzero (UInt64.toNat_inj.mp h)
    rw [if_neg hzero, if_neg hne]

theorem transactions_of_linked {reached : PayloadJob Tx × List (Published Tx)}
    (h : Linked X R debugAssertions ctx reached)
    (hindices : indices reached.2 = List.range reached.2.length) :
    transactions reached.2 = (spanned reached.2).map fun tx => X.encoded2718 tx.inner := by
  have hspan := fun (published : Published Tx) (hmem : published ∈ reached.2) => span_of_linked h hmem
  generalize reached.2 = published at hspan hindices ⊢
  cases published with
  | nil => rfl
  | cons first rest =>
      rw [List.length_cons, List.range_succ_eq_map] at hindices
      obtain ⟨hfirst, hrest⟩ := List.cons.inj hindices
      have hlater : ∀ next ∈ rest, next.flashblock.diff.transactions =
          (txsOf next.payload.historyStaging).map fun tx => X.encoded2718 tx.inner := by
        intro next hnext
        have hne : next.flashblock.flashblock.index.toNat ≠ 0 := by
          have hmem : next.flashblock.flashblock.index.toNat ∈ (List.range rest.length).map Nat.succ := by
            rw [← hrest]
            exact List.mem_map_of_mem hnext
          obtain ⟨i, _, hi⟩ := List.mem_map.mp hmem
          omega
        rw [hspan next (List.mem_cons_of_mem _ hnext), if_neg hne]
      rw [transactions, List.flatMap_cons, hspan first List.mem_cons_self, if_pos hfirst, spanned,
        List.map_append, List.map_flatMap, List.flatMap_congr hlater]

/-! The conversion. -/

variable {W : Conversions Tx}

/-- rblib's accessors of a block, and what the EVM environment of an OP block
after the merge holds. -/
structure AccessorLaws (block : BlockContext Tx) : Prop where
  number : saturatingTo block.evmEnv.blockEnv.number = block.number
  beneficiary : block.evmEnv.blockEnv.beneficiary = block.coinbase
  gasLimit : block.evmEnv.blockEnv.gasLimit =
    block.attributes.gasLimit.getD block.parent.header.gasLimit
  prevrandao : block.evmEnv.blockEnv.prevrandao =
    some block.attributes.payloadAttributes.prevRandao
  difficulty : block.evmEnv.blockEnv.difficulty = 0

/-- What alloy does with these transactions, which have been recovered before. -/
structure ConversionLaws (X : Crates Tx Db Core) (W : Conversions Tx)
    (txs : List (Recovered Tx)) : Prop where
  root : X.calculateTransactionRoot txs =
    W.orderedTrieRoot (txs.map fun tx => X.encoded2718 tx.inner)
  decode : ∀ tx ∈ txs, W.decode2718 (X.encoded2718 tx.inner) = .ok tx.inner
  recover : ∀ tx ∈ txs, W.recoverSigner tx.inner = .ok tx.signer

/-- The conversion gives the block that was built for the last flashblock. -/
def Rebuilds (X : Crates Tx Db Core) (last : Published Tx)
    (converted : Except Failure (RecoveredBlock Tx)) : Prop :=
  ∃ rebuilt, converted = .ok rebuilt ∧
    rebuilt.block.header = last.builtPayload.block.header ∧
    X.blockHash rebuilt.block = last.flashblock.diff.blockHash ∧
    rebuilt.block.body.transactions = last.builtPayload.block.body.transactions ∧
    rebuilt.block.body.blockAccessList = last.builtPayload.block.body.blockAccessList

/-- What the flashblocks leave out is what the conversion puts there. -/
structure Reversible (ctx : StepContext Tx Db) (published : List (Published Tx))
    (first last : Published Tx) : Prop where
  parentBeaconBlockRoot : ctx.block.blockEnv.parentBeaconBlockRoot = none
  canyon : ctx.block.chainSpec.isCanyonActiveAtTimestamp ctx.block.timestamp
  isthmus : ¬ctx.block.chainSpec.isIsthmusActiveAtTimestamp ctx.block.timestamp
  ecotone : ctx.block.chainSpec.isEcotoneActiveAtTimestamp ctx.block.timestamp ∨
    ctx.block.chainSpec.isJovianActiveAtTimestamp ctx.block.timestamp
  footprint : ctx.block.chainSpec.isJovianActiveAtTimestamp ctx.block.timestamp →
    last.payload.cumulativeDaFootprint.getD 0 = 0
  blockAccessList : first.payload.alloyBal = last.payload.alloyBal
  joined : published.IsChain Joined

theorem blobGas_zero_iff (chainSpec : OpChainSpec) (timestamp daFootprint : UInt64) :
    blobGas chainSpec timestamp daFootprint = (some 0, some 0) ↔
      (chainSpec.isEcotoneActiveAtTimestamp timestamp ∨
        chainSpec.isJovianActiveAtTimestamp timestamp) ∧
        (chainSpec.isJovianActiveAtTimestamp timestamp → daFootprint = 0) := by
  unfold blobGas
  cases chainSpec.isJovianActiveAtTimestamp timestamp with
  | true => simp
  | false => cases chainSpec.isEcotoneActiveAtTimestamp timestamp <;> simp

/-- A withdrawals root without requests is that of Canyon. -/
theorem canyon_iff {chainSpec : OpChainSpec} {timestamp : UInt64} {bundle : BundleState}
    {stateProvider : Db} {roots : Option B256 × Option B256}
    (h : withdrawalsAndRequests X chainSpec timestamp bundle stateProvider = .ok roots) :
    some (roots.1.getD 0) = roots.1 ∧ none = roots.2 ↔
      chainSpec.isCanyonActiveAtTimestamp timestamp ∧
        ¬chainSpec.isIsthmusActiveAtTimestamp timestamp := by
  unfold withdrawalsAndRequests at h
  cases histhmus : chainSpec.isIsthmusActiveAtTimestamp timestamp with
  | true =>
      rw [histhmus, if_pos rfl] at h
      obtain ⟨root, _, heq⟩ := bind_eq_ok.mp h
      rw [← Except.ok.inj heq]
      simp
  | false =>
      rw [histhmus, if_neg Bool.false_ne_true] at h
      cases hcanyon : chainSpec.isCanyonActiveAtTimestamp timestamp with
      | true =>
          rw [hcanyon, if_pos rfl] at h
          rw [← Except.ok.inj h]
          simp
      | false =>
          rw [hcanyon, if_neg Bool.false_ne_true] at h
          rw [← Except.ok.inj h]
          simp

theorem rebuilt_header_iff {payload : Payload Tx} (hblock : payload.block = ctx.block)
    (hlaws : AccessorLaws ctx.block) {totals : Totals} {txs : List (Recovered Tx)}
    {withdrawalsRoot requestsHash : Option B256} {stateRoot : B256}
    {diff : ExecutionPayloadFlashblockDeltaV1}
    (hstateRoot : diff.stateRoot = stateRoot)
    (hreceiptsRoot : diff.receiptsRoot = X.calculateReceiptRoot totals.receipts
      ctx.block.chainSpec ctx.block.timestamp)
    (hlogsBloom : diff.logsBloom = receiptsBloom X totals.receipts)
    (hgasUsed : diff.gasUsed = totals.cumulativeGasUsed)
    (hwithdrawalsRoot : diff.withdrawalsRoot = withdrawalsRoot.getD 0)
    (htransactionsRoot : W.orderedTrieRoot diff.transactions = X.calculateTransactionRoot txs)
    (hlist : diff.blockAccessList = some payload.alloyBal) :
    headerOf X W (executionPayloadBase ctx) diff ctx.block.baseFee =
        Publish.header X payload totals txs withdrawalsRoot requestsHash stateRoot ↔
      ctx.block.blockEnv.parentBeaconBlockRoot = none ∧
        (some (withdrawalsRoot.getD 0) = withdrawalsRoot ∧ none = requestsHash) ∧
        blobGas ctx.block.chainSpec ctx.block.timestamp
          (payload.cumulativeDaFootprint.getD 0) = (some 0, some 0) := by
  unfold headerOf Publish.header executionPayloadBase
  simp only [hblock, hstateRoot, hreceiptsRoot, hlogsBloom, hgasUsed, hwithdrawalsRoot,
    htransactionsRoot, hlist, hlaws.number, hlaws.beneficiary, hlaws.gasLimit, hlaws.prevrandao,
    hlaws.difficulty, Header.mk.injEq, true_and]
  constructor
  · rintro ⟨_, hroot, hused, hexcess, hbeacon, hrequests, _⟩
    exact ⟨hbeacon.symm, ⟨hroot, hrequests⟩, Prod.ext hexcess.symm hused.symm⟩
  · rintro ⟨hbeacon, ⟨hroot, hrequests⟩, hblob⟩
    rw [hblob]
    exact ⟨rfl, hroot, rfl, rfl, hbeacon.symm, hrequests, rfl⟩

theorem indices_of_collection {collection : Flashblocks} {published : List (Published Tx)}
    (h : collection.toList = published.map (·.flashblock)) :
    indices published = List.range published.length := by
  apply List.ext_getElem (by simp [indices])
  intro i hi _
  rw [indices, List.length_map] at hi
  have hindex := collection.guaranteed.index i (by rw [h, List.length_map]; exact hi)
  simpa [indices, h] using hindex

theorem reduced {reached : PayloadJob Tx × List (Published Tx)}
    (hlinked : Linked X R debugAssertions ctx reached) {collection : Flashblocks}
    (hcollection : collection.toList = reached.2.map (·.flashblock))
    {first last : Published Tx} (hfirst : first ∈ reached.2.head?)
    (hlast : last ∈ reached.2.getLast?) (debugAssertions' : Bool) :
    ∃ (value : Flashblock) (withdrawals : List Withdrawal),
      reduce debugAssertions' collection.toList = .ok (some value) ∧
      value.base = some (executionPayloadBase ctx) ∧
      value.diff = { last.flashblock.diff with
        transactions := (spanned reached.2).map fun tx => X.encoded2718 tx.inner
        withdrawals := withdrawals
        blockAccessList := first.flashblock.diff.blockAccessList } := by
  have htransactions := transactions_of_linked hlinked (indices_of_collection hcollection)
  obtain ⟨step, entries, hbase, hmade⟩ := hlinked.made first (List.mem_of_head? hfirst)
  obtain ⟨now, hflashblock⟩ := hmade.flashblock
  obtain ⟨rest, hpublished⟩ := List.head?_eq_some_iff.mp hfirst
  rw [hpublished] at hcollection hlast htransactions
  rw [List.getLast?_cons] at hlast
  have hmerged : ((rest.map (·.flashblock)).map (·.flashblock)).getLastD first.flashblock.flashblock =
      last.flashblock.flashblock := by
    rw [← Option.some.inj hlast, List.getLastD_eq_getLast?, List.getLast?_map, List.getLast?_map]
    cases rest.getLast? <;> rfl
  refine ⟨_, (merged first.flashblock.flashblock
    ((rest.map (·.flashblock)).map (·.flashblock))).diff.withdrawals,
    reduce_eq debugAssertions' collection hcollection, ?_, ?_⟩
  · exact (congrArg Flashblock.base hflashblock).trans hbase
  · rw [hpublished, ← htransactions]
    simp only [Flashblock.diff, merged, hmerged, transactions, List.flatMap_cons, List.flatMap_map]

theorem converted {reached : PayloadJob Tx × List (Published Tx)}
    (hlinked : Linked X R debugAssertions ctx reached) {collection : Flashblocks}
    (hcollection : collection.toList = reached.2.map (·.flashblock))
    {first last : Published Tx} (hfirst : first ∈ reached.2.head?)
    (hlast : last ∈ reached.2.getLast?)
    (hlaws : ConversionLaws X W (txsOf last.payload.history)) (debugAssertions' : Bool) :
    ∃ (diff : ExecutionPayloadFlashblockDeltaV1) (withdrawals : List Withdrawal),
      blockOfFlashblocks X W debugAssertions' collection =
        .ok ⟨⟨headerOf X W (executionPayloadBase ctx) diff ctx.block.baseFee,
          bodyOf diff ((spanned reached.2).map (·.inner))⟩, (spanned reached.2).map (·.signer)⟩ ∧
      diff = { last.flashblock.diff with
        transactions := (spanned reached.2).map fun tx => X.encoded2718 tx.inner
        withdrawals := withdrawals
        blockAccessList := first.flashblock.diff.blockAccessList } := by
  have hsub := (spanned_of_follows hlinked.chain hlast).1
  obtain ⟨value, withdrawals, hreduce, hbase, hdiff⟩ :=
    reduced hlinked hcollection hfirst hlast debugAssertions'
  refine ⟨value.diff, withdrawals, ?_, hdiff⟩
  rw [blockOfFlashblocks, hreduce]
  apply blockOfFlashblock_eq hbase rfl
  · rw [hdiff]
    exact mapM_map_ok fun tx htx => hlaws.decode tx (hsub.mem htx)
  · exact mapM_map_ok fun tx htx => hlaws.recover tx (hsub.mem htx)

theorem diff_of_made {step : PublishFlashblock Tx} {payload : Payload Tx}
    {published : Published Tx} (h : Made X debugAssertions ctx step payload published) :
    let header := published.builtPayload.block.header
    published.flashblock.diff = {
      stateRoot := header.stateRoot
      receiptsRoot := header.receiptsRoot
      logsBloom := header.logsBloom
      gasUsed := header.gasUsed
      blockHash := X.blockHash published.builtPayload.block
      transactions := published.flashblock.diff.transactions
      withdrawalsRoot := header.withdrawalsRoot.getD 0
      blockAccessList := some payload.alloyBal } := by
  obtain ⟨now, hflashblock⟩ := h.flashblock
  rw [hflashblock]
  simp only [Flashblock.diff, flashblockOf, (body_of_built h.built).2]

theorem made_header_iff {step : PublishFlashblock Tx} {payload : Payload Tx}
    {published : Published Tx} (hmade : Made X debugAssertions ctx step payload published)
    (hblock : payload.block = ctx.block) (haccessors : AccessorLaws ctx.block)
    {encoded : List Bytes}
    (hroot : W.orderedTrieRoot encoded = X.calculateTransactionRoot (txsOf payload.history))
    (withdrawals : List Withdrawal) :
    headerOf X W (executionPayloadBase ctx)
        { published.flashblock.diff with
          transactions := encoded
          withdrawals := withdrawals
          blockAccessList := some payload.alloyBal } ctx.block.baseFee =
        published.builtPayload.block.header ↔
      ctx.block.blockEnv.parentBeaconBlockRoot = none ∧
        (ctx.block.chainSpec.isCanyonActiveAtTimestamp ctx.block.timestamp ∧
          ¬ctx.block.chainSpec.isIsthmusActiveAtTimestamp ctx.block.timestamp) ∧
        (ctx.block.chainSpec.isEcotoneActiveAtTimestamp ctx.block.timestamp ∨
          ctx.block.chainSpec.isJovianActiveAtTimestamp ctx.block.timestamp) ∧
        (ctx.block.chainSpec.isJovianActiveAtTimestamp ctx.block.timestamp →
          payload.cumulativeDaFootprint.getD 0 = 0) := by
  obtain ⟨_, totals, roots, stateRoot, _, _, hroots, _, hsealed⟩ := built_sealed hmade.built
  rw [hblock] at hroots
  rw [diff_of_made hmade, ← canyon_iff hroots, ← blobGas_zero_iff, hsealed]
  apply rebuilt_header_iff hblock haccessors
  · rfl
  · rw [← hblock]
    rfl
  · rfl
  · rfl
  · rfl
  · exact hroot
  · rfl

theorem rebuilds_iff {published : List (Published Tx)} {first last : Published Tx}
    (hsub : List.Sublist (spanned published) (txsOf last.payload.history))
    (hbody : last.builtPayload.block.body.transactions =
      (txsOf last.payload.history).map (·.inner))
    (hlist : last.builtPayload.block.body.blockAccessList = some last.payload.alloyBal)
    (hhash : last.flashblock.diff.blockHash = X.blockHash last.builtPayload.block)
    {header : Header} {diff : ExecutionPayloadFlashblockDeltaV1}
    (hdiff : diff.blockAccessList = some first.payload.alloyBal) (senders : List Address) :
    Rebuilds X last (.ok ⟨⟨header, bodyOf diff ((spanned published).map (·.inner))⟩, senders⟩) ↔
      spanned published = txsOf last.payload.history ∧
        first.payload.alloyBal = last.payload.alloyBal ∧
        header = last.builtPayload.block.header := by
  constructor
  · rintro ⟨rebuilt, hrebuilt, hheader, _, htxs, hlists⟩
    cases Except.ok.inj hrebuilt
    refine ⟨?_, ?_, hheader⟩
    · apply hsub.eq_of_length
      have hlength := congrArg List.length htxs
      rw [hbody, List.length_map] at hlength
      simpa [bodyOf] using hlength
    · have hsame := hdiff.symm.trans (hlists.trans hlist)
      exact Option.some.inj hsame
  · rintro ⟨hspanned, hlists, hheader⟩
    refine ⟨_, rfl, hheader, ?_, ?_, ?_⟩
    · rw [hhash]
      exact congrArg X.hashSlow hheader
    · rw [hbody, ← hspanned]
      rfl
    · rw [hlist, ← hlists]
      exact hdiff

/-- Exactly when the flashblocks of a job, converted, give the block that was
built for the last of them. -/
theorem rebuilt_iff {self : PublishFlashblock Tx} {actions : List (Action Tx Db)}
    {published : List (Published Tx)}
    (hpublished : (exec (act X R debugAssertions ctx) (begin ctx self) actions).2 = published)
    {collection : Flashblocks} (hcollection : collection.toList = published.map (·.flashblock))
    {first last : Published Tx} (hfirst : first ∈ published.head?)
    (hlast : last ∈ published.getLast?) (haccessors : AccessorLaws ctx.block)
    (hlaws : ConversionLaws X W (txsOf last.payload.history)) (debugAssertions' : Bool) :
    Rebuilds X last (blockOfFlashblocks X W debugAssertions' collection) ↔
      Reversible ctx published first last := by
  have hlinked := @linked_along_run Tx Db Core X R debugAssertions ctx self actions
  generalize exec (act X R debugAssertions ctx) (begin ctx self) actions = reached
    at hpublished hlinked
  subst hpublished
  obtain ⟨diff, withdrawals, hconverted, hdiff⟩ :=
    converted hlinked hcollection hfirst hlast hlaws debugAssertions'
  obtain ⟨hsub, hspanned⟩ := spanned_of_follows hlinked.chain hlast
  obtain ⟨_, _, _, hmade⟩ := hlinked.made last (List.mem_of_getLast? hlast)
  obtain ⟨_, _, _, hmadeFirst⟩ := hlinked.made first (List.mem_of_head? hfirst)
  have hblock : last.payload.block = ctx.block := by
    rw [hmade.spans]
    rfl
  rw [← hmade.spans] at hmade
  rw [← hmadeFirst.spans] at hmadeFirst
  obtain ⟨hbody, hbodyList⟩ := body_of_built hmade.built
  have hlist : first.flashblock.diff.blockAccessList = some first.payload.alloyBal := by
    rw [diff_of_made hmadeFirst]
  have hhash : last.flashblock.diff.blockHash = X.blockHash last.builtPayload.block := by
    rw [diff_of_made hmade]
  rw [hlist] at hdiff
  rw [hconverted, rebuilds_iff hsub hbody hbodyList hhash (congrArg _ hdiff), hdiff]
  constructor
  · rintro ⟨hspans, hlists, hheader⟩
    rw [hlists] at hheader
    obtain ⟨hbeacon, ⟨hcanyon, histhmus⟩, hecotone, hfootprint⟩ :=
      (made_header_iff hmade hblock haccessors (hspans ▸ hlaws.root.symm) withdrawals).mp hheader
    exact ⟨hbeacon, hcanyon, histhmus, hecotone, hfootprint, hlists, hspanned.mp hspans⟩
  · intro h
    have hspans := hspanned.mpr h.joined
    refine ⟨hspans, h.blockAccessList, ?_⟩
    rw [h.blockAccessList]
    exact (made_header_iff hmade hblock haccessors (hspans ▸ hlaws.root.symm) withdrawals).mpr
      ⟨h.parentBeaconBlockRoot, ⟨h.canyon, h.isthmus⟩, h.ecotone, h.footprint⟩

/-! Two flashblocks on the sample chain with its upgrades up to Ecotone. -/

def sampleConversions : Conversions SampleTx where
  orderedTrieRoot encoded := .ofNat 256 encoded.length
  decode2718 := sample.decode2718Exact
  recoverSigner tx := .ok tx.signer

def upgradedJob (parentBeaconBlockRoot : Option B256) : StepContext SampleTx SampleDb :=
  { sampleJob with block := { sampleBlock with
      chainSpec := { sampleChainSpec with
        isCanyonActiveAtTimestamp _ := true
        isEcotoneActiveAtTimestamp _ := true }
      blockEnv := { sampleBlock.blockEnv with parentBeaconBlockRoot := parentBeaconBlockRoot } } }

def upgradedRun (parentBeaconBlockRoot : Option B256) :
    PayloadJob SampleTx × List (Published SampleTx) :=
  exec (act sample sampleExt false (upgradedJob parentBeaconBlockRoot))
    (begin (upgradedJob parentBeaconBlockRoot) ⟨.new none, 0, none⟩)
    [.add (sampleCheckpoint 0), .barrier {}, .publish 0, .add (sampleCheckpoint 1), .publish 1]

def upgradedLast (parentBeaconBlockRoot : Option B256) : Published SampleTx :=
  (upgradedRun parentBeaconBlockRoot).2.getLast?.get rfl

theorem upgraded_collection : ∀ parentBeaconBlockRoot ∈ [none, some 9],
    (upgradedRun parentBeaconBlockRoot).1.step.p2p.inner.flashblocks.toList =
      (upgradedRun parentBeaconBlockRoot).2.map (·.flashblock) := by
  intro parentBeaconBlockRoot hroot
  rcases List.mem_pair.mp hroot with rfl | rfl
  · decide +kernel
  · decide +kernel

theorem upgraded_accessorLaws (parentBeaconBlockRoot : Option B256) :
    AccessorLaws (upgradedJob parentBeaconBlockRoot).block where
  number := rfl
  beneficiary := rfl
  gasLimit := rfl
  prevrandao := rfl
  difficulty := rfl

theorem sample_conversionLaws : ConversionLaws sample sampleConversions
    [⟨{ signer := 1, nonce := 0 }, 1⟩, ⟨{ signer := 1, nonce := 1 }, 1⟩] where
  root := rfl
  decode := by decide
  recover := by decide

theorem rebuilt_iff_two_flashblocks : Rebuilds sample (upgradedLast none)
    (blockOfFlashblocks sample sampleConversions false
      (upgradedRun none).1.step.p2p.inner.flashblocks) := by
  have hfirst : (upgradedRun none).2.head?.get rfl ∈ (upgradedRun none).2.head? := rfl
  have hlast : upgradedLast none ∈ (upgradedRun none).2.getLast? := rfl
  apply (rebuilt_iff rfl (upgraded_collection none (by simp)) hfirst hlast (upgraded_accessorLaws none)
    sample_conversionLaws false).mpr
  exact ⟨rfl, rfl, Bool.false_ne_true, .inl rfl, (fun h => nomatch h), rfl,
    .cons_cons rfl (.singleton _)⟩

/-- The conversion has no parent beacon root where the published header has one. -/
theorem beacon_root_dropped :
    ¬∀ (ctx : StepContext SampleTx SampleDb) (actions : List (Action SampleTx SampleDb))
      (collection : Flashblocks) (last : Published SampleTx),
      let published := (exec (act sample sampleExt false ctx) (begin ctx ⟨.new none, 0, none⟩)
        actions).2
      collection.toList = published.map (·.flashblock) → last ∈ published.getLast? →
      AccessorLaws ctx.block →
      ConversionLaws sample sampleConversions (txsOf last.payload.history) →
        Rebuilds sample last (blockOfFlashblocks sample sampleConversions false collection) := by
  intro hall
  obtain ⟨rebuilt, hrebuilt, hheader, _⟩ := hall (upgradedJob (some 9)) _ _
    (upgradedLast (some 9)) (upgraded_collection (some 9) (by simp)) rfl (upgraded_accessorLaws _)
    sample_conversionLaws
  have hroot := congrArg Header.parentBeaconBlockRoot hheader
  cases hrebuilt
  cases hroot

end WorldChain.Step.Rebuilt
