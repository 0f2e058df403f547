import WorldChain.Builder.AccessEntries
import WorldChain.Builder.Outcome

/-! The block access list that `build` puts together again. It folds over the
lists of the transactions, each of which already has the shared prefix: what
the previous list and the pre-execution changes put into the builder. -/
namespace WorldChain.Builder.AccessList
open Library.Fallible Library.Upsert
open Wire.Primitives Deps.Revm Deps.Reth Deps.Calls Deps.Concrete
open Build Assemble Builder.Sequential Outcome AccessEntries

variable {Tx Db Core : Type} {X : Crates Tx Db Core}

theorem loadBal_entries (hlaws : AccessListLaws X) {list : BlockAccessList} {bal : Bal}
    (hwell : WellFormed list) (h : loadBal X list = .ok bal) :
    (balEntries bal).writes.Perm (listEntries list).writes ∧
      (balEntries bal).mentions.Perm (listEntries list).mentions := by
  obtain ⟨accounts, haccounts, heq⟩ := bind_eq_ok.mp h
  cases heq
  have hconverted : List.Forall₂ (fun (acc : AccountChanges) (account : Address × AccountBal) =>
      account.1 = acc.address ∧ (accountWrites account.1 account.2).Perm (alloyWrites acc) ∧
        (accountMentions account.1 account.2).Perm (alloyMentions acc)) list accounts := by
    have hforall := mapM_eq_ok.mp haccounts
    have hslots := hwell.slots
    clear haccounts h hwell
    induction hforall with
    | nil => exact .nil
    | cons hfirst _ ih =>
        have hload := orPanic_eq_ok.mp hfirst
        refine .cons (hlaws.tryFromAlloy _ _ _ (hslots _ List.mem_cons_self) hload) ?_
        exact ih fun acc hacc => hslots acc (List.mem_cons_of_mem _ hacc)
  have haddresses : accounts.map Prod.fst = list.map (·.address) := by
    clear haccounts h
    induction hconverted with
    | nil => rfl
    | cons hfirst _ ih =>
        rw [List.map_cons, List.map_cons, hfirst.1,
          ih ⟨(List.nodup_cons.mp hwell.addresses).2,
            fun acc hacc => hwell.slots acc (List.mem_cons_of_mem _ hacc)⟩]
  have hdistinct : (accounts.map Prod.fst).Nodup := haddresses ▸ hwell.addresses
  have hflat {E : Type} (held : Address → AccountBal → List E) (alloy : AccountChanges → List E)
      (hheld : List.Forall₂ (fun acc (account : Address × AccountBal) =>
        (held account.1 account.2).Perm (alloy acc)) list accounts) :
      (holds held (ofPairs accounts)).Perm (list.flatMap alloy) := by
    refine (holds_ofPairs hdistinct).trans ?_
    clear hdistinct haddresses hconverted haccounts hwell h
    induction hheld with
    | nil => exact .refl _
    | cons hfirst _ ih =>
        rw [List.flatMap_cons, List.flatMap_cons]
        exact hfirst.append ih
  exact ⟨hflat accountWrites alloyWrites (hconverted.imp fun _ _ h => h.2.1),
    hflat accountMentions alloyMentions (hconverted.imp fun _ _ h => h.2.2)⟩

theorem foldl_commit_balBuilder (changes : List EvmState) (state : State Core) :
    (changes.foldl X.commit state).balState.balBuilder =
      state.balState.balBuilder.map fun builder =>
        changes.foldl (X.recordAccesses · state.balState.balIndex) builder := by
  induction changes generalizing state with
  | nil => simp
  | cons first rest ih =>
      rw [List.foldl_cons, ih, commit_balIndex]
      simp [Crates.commit, Function.comp_def]

theorem foldl_record_entries (hlaws : AccessListLaws X) (index : BalIndex)
    (changes : List EvmState) (builder : Bal) :
    (balEntries (changes.foldl (X.recordAccesses · index) builder)).writes.Perm
        ((balEntries builder).writes ++ changes.flatMap fun c => (ownEntries index c).writes) ∧
      ∀ m, m ∈ (balEntries (changes.foldl (X.recordAccesses · index) builder)).mentions ↔
        m ∈ (balEntries builder).mentions ∨ ∃ c ∈ changes, m ∈ (ownEntries index c).mentions := by
  induction changes generalizing builder with
  | nil => simp
  | cons first rest ih =>
      have hfirst := hlaws.recordAccesses builder index first
      have hrest := ih (X.recordAccesses builder index first)
      rw [List.foldl_cons]
      constructor
      · refine hrest.1.trans ?_
        rw [List.flatMap_cons, ← List.append_assoc]
        exact hfirst.1.append_right _
      · intro m
        rw [hrest.2 m, hfirst.2 m, or_assoc]
        simp

theorem foldl_merge_entries (hlaws : AccessListLaws X) (bals : List Bal) (start : Bal) :
    (balEntries ⟨bals.foldl (fun accounts bal => mergeInto (extendAccountBal X) accounts bal.accounts)
        start.accounts⟩).writes.Perm
        ((balEntries start).writes ++ bals.flatMap fun bal => (balEntries bal).writes) ∧
      ∀ m, m ∈ (balEntries ⟨bals.foldl
          (fun accounts bal => mergeInto (extendAccountBal X) accounts bal.accounts)
          start.accounts⟩).mentions ↔
        m ∈ (balEntries start).mentions ∨ ∃ bal ∈ bals, m ∈ (balEntries bal).mentions := by
  induction bals generalizing start with
  | nil => simp
  | cons first rest ih =>
      have hrest := ih ⟨mergeInto (extendAccountBal X) start.accounts first.accounts⟩
      have hwrites : (holds accountWrites
          (mergeInto (extendAccountBal X) start.accounts first.accounts)).Perm
            (holds accountWrites start.accounts ++ holds accountWrites first.accounts) :=
        holds_mergeInto_perm _ _ (extend_writes hlaws)
      rw [List.foldl_cons]
      constructor
      · refine hrest.1.trans ?_
        rw [List.flatMap_cons, ← List.append_assoc]
        exact hwrites.append_right _
      · intro m
        have hmem : m ∈ holds accountMentions
              (mergeInto (extendAccountBal X) start.accounts first.accounts) ↔
            m ∈ holds accountMentions start.accounts ∨ m ∈ holds accountMentions first.accounts :=
          mem_holds_mergeInto fun address old value => mem_extend_mentions hlaws address old value m
        rw [hrest.2 m]
        simp only [balEntries] at hmem ⊢
        rw [hmem, or_assoc]
        simp

/-- What is in the builder when the transactions start: the previous list and
the pre-execution changes, recorded under index 0. -/
def sharedEntries (previous : BlockAccessList) (pre : List EvmState) : Entries where
  writes := (listEntries previous).writes ++ pre.flatMap fun c => (ownEntries 0 c).writes
  mentions := (listEntries previous).mentions ++ pre.flatMap fun c => (ownEntries 0 c).mentions

def outcomeEntries (outcome : TxOutcome Tx) : Entries := ownEntries outcome.index outcome.changes

def partsOf (previous : BlockAccessList) (pre : List EvmState) (outcomes : List (TxOutcome Tx)) :
    List Entries :=
  listEntries previous :: (pre.map (ownEntries 0) ++ outcomes.map outcomeEntries)

structure Recorded (X : Crates Tx Db Core) (db : Db) (ctx : OpPayloadBuilderCtx Tx)
    (committedPayload : Option (OpBuiltPayload Tx)) (list : BlockAccessList) (evmEnv : EvmEnv)
    (setup : Setup Tx Core) (pre : List EvmState) (outcomes : List (TxOutcome Tx)) : Prop where
  prepared : setUp X db ctx committedPayload (some list) = .ok setup
  recorded : ∃ bal, loadBal X list = .ok bal ∧
    preExecutionChanges X ctx setup.committed
      (parallelReader X db setup.committed.bundle (some bal) setup.committed.transactionsOffset) =
        .ok pre
  ran : setup.transactions.mapM (transactAt X evmEnv
    (parallelReader X db setup.committed.bundle setup.state.balState.bal)) = .ok outcomes

def previousList (committed : Committed Tx) : BlockAccessList := committed.previousBal.getD []

theorem initialBalBuilder_entries (hlaws : AccessListLaws X) {committed : Committed Tx} {bal : Bal}
    (hwell : WellFormed (previousList committed))
    (h : initialBalBuilder X committed = .ok bal) :
    (balEntries bal).writes.Perm (listEntries (previousList committed)).writes ∧
      (balEntries bal).mentions.Perm (listEntries (previousList committed)).mentions := by
  unfold initialBalBuilder at h
  unfold previousList at hwell ⊢
  cases hprevious : committed.previousBal with
  | none =>
      rw [hprevious] at h
      cases h
      exact ⟨.refl _, .refl _⟩
  | some previous =>
      rw [hprevious] at h hwell
      exact loadBal_entries hlaws hwell h

theorem preExecution_index {ctx : OpPayloadBuilderCtx Tx} {committed : Committed Tx} {read : Reader}
    {pre : List EvmState} (h : preExecutionChanges X ctx committed read = .ok pre) :
    pre = [] ∨ committed.transactionsOffset = 0 := by
  by_cases hoffset : committed.transactionsOffset = 0
  · exact .inr hoffset
  · exact .inl (preExecutionChanges_of_committed hoffset h)

/-- Every successful setup with a list leaves the shared entries in the builder
that each transaction gets a copy of. -/
theorem builder_entries (hlaws : AccessListLaws X) {db : Db} {ctx : OpPayloadBuilderCtx Tx}
    {committedPayload : Option (OpBuiltPayload Tx)} {list : BlockAccessList}
    {setup : Setup Tx Core} (hwell : WellFormed (previousList setup.committed))
    (hsetup : setUp X db ctx committedPayload (some list) = .ok setup) :
    ∃ bal pre builder, loadBal X list = .ok bal ∧
      preExecutionChanges X ctx setup.committed
        (parallelReader X db setup.committed.bundle (some bal)
          setup.committed.transactionsOffset) = .ok pre ∧
      setup.state.balState.balBuilder = some builder ∧
      (balEntries builder).writes.Perm (sharedEntries (previousList setup.committed) pre).writes ∧
      ∀ m, m ∈ (balEntries builder).mentions ↔
        m ∈ (sharedEntries (previousList setup.committed) pre).mentions := by
  obtain ⟨balState, pre, hbalState, hpre, hstate⟩ := setUp_state hsetup
  rw [initialBalState_some] at hbalState
  obtain ⟨initial, hinitial, hbal⟩ := bind_eq_ok.mp hbalState
  obtain ⟨bal, hload, rfl⟩ := map_eq_ok.mp hbal
  obtain ⟨hwrites, hmentions⟩ := initialBalBuilder_entries hlaws hwell hinitial
  have hbuilder : setup.state.balState.balBuilder =
      some (pre.foldl (X.recordAccesses · setup.committed.transactionsOffset) initial) := by
    rw [hstate, foldl_commit_balBuilder]
    rfl
  refine ⟨bal, pre, _, hload, hpre, hbuilder, ?_⟩
  rcases preExecution_index hpre with rfl | hoffset
  · simp only [sharedEntries, List.foldl_nil, List.flatMap_nil, List.append_nil]
    exact ⟨hwrites, fun m => hmentions.mem_iff⟩
  · obtain ⟨hpreWrites, hpreMentions⟩ := foldl_record_entries hlaws 0 pre initial
    rw [hoffset]
    refine ⟨hpreWrites.trans (hwrites.append_right _), ?_⟩
    intro m
    rw [hpreMentions m, hmentions.mem_iff]
    simp [sharedEntries]

/-- The rebuilt list has the shared entries once for each transaction. -/
theorem final_entries (hlaws : AccessListLaws X) {db : Db} {ctx : OpPayloadBuilderCtx Tx}
    {evmEnv : EvmEnv} {setup : Setup Tx Core} {outcomes : List (TxOutcome Tx)}
    {executed : Execution Tx} (hran : Ran X db ctx evmEnv setup outcomes executed) {builder : Bal}
    (hbuilder : setup.state.balState.balBuilder = some builder) :
    (balEntries executed.merged.finalBal).writes.Perm
        (outcomes.flatMap fun o => (balEntries builder).writes ++ (outcomeEntries o).writes) ∧
      ∀ m, m ∈ (balEntries executed.merged.finalBal).mentions ↔
        ∃ o ∈ outcomes, m ∈ (balEntries builder).mentions ∨ m ∈ (outcomeEntries o).mentions := by
  have hstep : ∀ (merged : Merged) (result : ParallelResult Tx) (merged' : Merged),
      mergeResult X ctx evmEnv.blockEnv.basefee setup.state merged result = .ok merged' →
        merged'.finalBal.accounts =
          mergeInto (extendAccountBal X) merged.finalBal.accounts (result.bal.getD {}).accounts := by
    intro merged result merged' h
    obtain ⟨charged, _, rfl⟩ := mergeResult_eq_ok.mp h
    rfl
  have hview := foldlM_view (fun merged => merged.finalBal.accounts)
    (fun accounts result => mergeInto (extendAccountBal X) accounts (result.bal.getD {}).accounts)
    hstep hran.merged
  have hbals : executed.merged.finalBal =
      ⟨(outcomes.map fun o => X.recordAccesses builder o.index o.changes).foldl
        (fun accounts bal => mergeInto (extendAccountBal X) accounts bal.accounts)
        ({} : Bal).accounts⟩ := by
    rw [List.foldl_map] at hview ⊢
    simp only [TxOutcome.parallelResult, hbuilder, Option.map_some, Option.getD_some] at hview
    exact congrArg Bal.mk hview
  obtain ⟨hwrites, hmentions⟩ := foldl_merge_entries hlaws
    (outcomes.map fun o => X.recordAccesses builder o.index o.changes) {}
  rw [hbals]
  constructor
  · refine hwrites.trans ?_
    rw [List.flatMap_map]
    exact List.Perm.flatMap_left _ fun o _ => (hlaws.recordAccesses builder o.index o.changes).1
  · intro m
    have hempty : m ∉ (balEntries {}).mentions := List.not_mem_nil
    simp only [hmentions m, hempty, false_or, List.mem_map, exists_exists_and_eq_and]
    exact exists_congr fun o => and_congr_right fun _ => (hlaws.recordAccesses builder _ _).2 m

theorem count_flatMap_shared {α E : Type} [DecidableEq E] (l : List α) (shared : List E)
    (own : α → List E) (x : E) :
    (l.flatMap fun a => shared ++ own a).count x =
      l.length * shared.count x + (l.flatMap own).count x := by
  induction l with
  | nil => simp
  | cons a rest ih =>
      simp only [List.flatMap_cons, List.count_append, List.length_cons, ih, Nat.succ_mul]
      omega

/-- Adding the shared part once for each element gives it once in total just
when there is one element or nothing to add. -/
theorem perm_shared_iff {α E : Type} [DecidableEq E] (l : List α) (shared : List E)
    (own : α → List E) :
    (l.flatMap fun a => shared ++ own a).Perm (shared ++ l.flatMap own) ↔
      l.length = 1 ∨ shared = [] := by
  simp only [List.perm_iff_count, count_flatMap_shared, List.count_append]
  constructor
  · intro h
    by_cases hone : l.length = 1
    · exact .inl hone
    · right
      apply List.eq_nil_iff_forall_not_mem.mpr
      intro x hx
      have hcount := h x
      have hpos := List.count_pos_iff.mpr hx
      have hmul : l.length * shared.count x = 1 * shared.count x := by omega
      exact hone (Nat.eq_of_mul_eq_mul_right hpos hmul)
  · rintro (hone | rfl) x
    · rw [hone, Nat.one_mul]
    · simp

theorem partsOf_writes (previous : BlockAccessList) (pre : List EvmState)
    (outcomes : List (TxOutcome Tx)) :
    (partsOf previous pre outcomes).flatMap Entries.writes =
      (sharedEntries previous pre).writes ++
        outcomes.flatMap fun o => (outcomeEntries o).writes := by
  simp [partsOf, sharedEntries, List.flatMap_map]

theorem mem_partsOf_mentions (previous : BlockAccessList) (pre : List EvmState)
    (outcomes : List (TxOutcome Tx)) (m : Mention) :
    (∃ part ∈ partsOf previous pre outcomes, m ∈ part.mentions) ↔
      m ∈ (sharedEntries previous pre).mentions ∨
        ∃ o ∈ outcomes, m ∈ (outcomeEntries o).mentions := by
  simp only [partsOf, sharedEntries, List.mem_cons, List.mem_append, List.mem_map,
    List.mem_flatMap, or_and_right, exists_or, exists_eq_left, exists_exists_and_eq_and]
  exact or_assoc.symm

/-- When the list comes out right: with one transaction; without any when there
is nothing in the shared part; with several when nothing in it is a write. -/
def SharedFitsOnce (shared : Entries) (count : Nat) : Prop :=
  (count = 0 → shared.writes = [] ∧ shared.mentions = []) ∧ (2 ≤ count → shared.writes = [])

theorem holdsExactlyOnce_iff {list : BlockAccessList} {previous : BlockAccessList}
    {pre : List EvmState} {outcomes : List (TxOutcome Tx)}
    (hwrites : (listEntries list).writes.Perm (outcomes.flatMap fun o =>
      (sharedEntries previous pre).writes ++ (outcomeEntries o).writes))
    (hnodup : (listEntries list).mentions.Nodup)
    (hmentions : ∀ m, m ∈ (listEntries list).mentions ↔ ∃ o ∈ outcomes,
      m ∈ (sharedEntries previous pre).mentions ∨ m ∈ (outcomeEntries o).mentions) :
    HoldsExactlyOnce list (partsOf previous pre outcomes) ↔
      SharedFitsOnce (sharedEntries previous pre) outcomes.length := by
  have hiff := perm_shared_iff outcomes (sharedEntries previous pre).writes
    fun o => (outcomeEntries o).writes
  rw [← partsOf_writes] at hiff
  constructor
  · intro h
    have hshared := hiff.mp (hwrites.symm.trans h.writes)
    refine ⟨?_, fun hmany => hshared.resolve_left (by omega)⟩
    intro hzero
    refine ⟨hshared.resolve_left (by omega), ?_⟩
    rw [List.length_eq_zero_iff.mp hzero] at h hmentions
    apply List.eq_nil_iff_forall_not_mem.mpr
    intro m hm
    have hmem := (h.mentions m).mpr ((mem_partsOf_mentions _ _ _ m).mpr (.inl hm))
    simpa using (hmentions m).mp hmem
  · rintro ⟨hzero, hmany⟩
    have hshared : outcomes.length = 1 ∨ (sharedEntries previous pre).writes = [] := by
      by_cases hnone : outcomes.length = 0
      · exact .inr (hzero hnone).1
      · by_cases hone : outcomes.length = 1
        · exact .inl hone
        · exact .inr (hmany (by omega))
    refine ⟨hwrites.trans (hiff.mpr hshared), hnodup, ?_⟩
    intro m
    rw [hmentions m, mem_partsOf_mentions]
    cases outcomes with
    | nil => simp [(hzero rfl).2]
    | cons first rest =>
        simp only [and_or_left, exists_or, exists_and_right]
        have hfirst : ∃ o, o ∈ first :: rest := ⟨first, List.mem_cons_self⟩
        simp only [hfirst, true_and]

theorem wellFormed_previousList {committedPayload : Option (OpBuiltPayload Tx)}
    {committed : Committed Tx}
    (hwell : ∀ payload ∈ committedPayload,
      WellFormed (payload.block.body.blockAccessList.getD []))
    (hload : loadCommitted X committedPayload = .ok committed) :
    WellFormed (previousList committed) := by
  cases committedPayload with
  | none =>
      rw [loadCommitted_none hload]
      exact ⟨List.nodup_nil, by simp [previousList]⟩
  | some payload =>
      rw [previousList, (loadCommitted_some hload).2.2.1]
      exact hwell payload rfl

/-- Exactly when the list in the built block holds every change once: the
previous list, the pre-execution changes and those of the transactions. The new
list has the form that the next build asks of the previous one. -/
theorem list_exact_iff (hlaws : AccessListLaws X) {db stateProvider : Db}
    {ctx : OpPayloadBuilderCtx Tx} {committedPayload : Option (OpBuiltPayload Tx)}
    {list : BlockAccessList} {evmEnv : EvmEnv} {extraData : Bytes}
    {outcome : BuildOutcomeKind (OpBuiltPayload Tx)}
    (hwell : ∀ payload ∈ committedPayload,
      WellFormed (payload.block.body.blockAccessList.getD []))
    (hbuild : build X db stateProvider ctx committedPayload (some list) evmEnv extraData =
      .ok outcome) :
    ∃ payload setup pre outcomes rebuilt, outcome.payload = some payload ∧
      Recorded X db ctx committedPayload list evmEnv setup pre outcomes ∧
      payload.block.body.blockAccessList = some rebuilt ∧
      payload.block.header.blockAccessListHash = some (X.computeBlockAccessListHash rebuilt) ∧
      WellFormed rebuilt ∧
      (HoldsExactlyOnce rebuilt (partsOf (previousList setup.committed) pre outcomes) ↔
        SharedFitsOnce (sharedEntries (previousList setup.committed) pre) outcomes.length) := by
  obtain ⟨executed, payload, hexecuted, hassemble, houtcome⟩ := build_eq_ok.mp hbuild
  obtain ⟨setup, outcomes, hsetup, hran⟩ := execute_eq_ok.mp hexecuted
  obtain ⟨_, _, _, hload, _⟩ := setUp_eq_ok.mp hsetup
  obtain ⟨bal, pre, builder, hbal, hpre, hbuilder, hshared, hsharedMentions⟩ :=
    builder_entries hlaws (wellFormed_previousList hwell hload) hsetup
  have hassembled := assembled hassemble
  obtain ⟨hwrites, hmentions⟩ := final_entries hlaws hran hbuilder
  obtain ⟨halloyWrites, halloyMentions⟩ := hlaws.intoAlloyBal executed.merged.finalBal
  have hnodup := halloyMentions.nodup_iff.mpr (mentions_nodup executed.merged.finalBal)
  refine ⟨payload, setup, pre, outcomes, _, ?_, ⟨hsetup, ⟨bal, hbal, hpre⟩, hran.ran⟩,
    hassembled.blockAccessList, hassembled.blockAccessListHash,
    wellFormed_of_mentions_nodup hnodup, ?_⟩
  · rw [houtcome]
    split <;> rfl
  apply holdsExactlyOnce_iff
  · refine (halloyWrites.trans hwrites).trans ?_
    exact List.Perm.flatMap_left _ fun o _ => hshared.append_right _
  · exact hnodup
  · intro m
    rw [halloyMentions.mem_iff, hmentions m]
    exact exists_congr fun o => and_congr_right fun _ => or_congr_left (hsharedMentions m)

def oneWriter : List SampleTx := [{ signer := 1, stores := [(5, 0, 2)] }]

def oneWriterList : BlockAccessList :=
  [{ address := 1, nonceChanges := [⟨1, 1⟩] }, { address := 5, storageChanges := [⟨0, [⟨1, 2⟩]⟩] },
    rootEntry]

theorem list_exact_iff_one_transaction :
    ∃ outcome, build sample {} {} (sampleCtx oneWriter) none (some oneWriterList) {} [] =
        .ok outcome ∧
      ∃ payload setup pre outcomes rebuilt, outcome.payload = some payload ∧
        Recorded sample {} (sampleCtx oneWriter) none oneWriterList {} setup pre outcomes ∧
        payload.block.body.blockAccessList = some rebuilt ∧
        payload.block.header.blockAccessListHash =
          some (sample.computeBlockAccessListHash rebuilt) ∧
        WellFormed rebuilt ∧
        (HoldsExactlyOnce rebuilt (partsOf (previousList setup.committed) pre outcomes) ↔
          SharedFitsOnce (sharedEntries (previousList setup.committed) pre) outcomes.length) := by
  have hok : (build sample {} {} (sampleCtx oneWriter) none (some oneWriterList) {} []).isOk := rfl
  obtain ⟨outcome, hbuild⟩ := exists_ok hok
  exact ⟨outcome, hbuild, list_exact_iff sample_accessListLaws (fun _ h => nomatch h) hbuild⟩

/-- An empty first flashblock: no transaction's list brings in the entry of the
beacon root. -/
theorem entries_lost :
    ¬∀ outcome payload setup pre outcomes rebuilt,
      build sample {} {} (sampleCtx []) none (some [rootEntry]) {} [] = .ok outcome →
      outcome.payload = some payload →
      Recorded sample {} (sampleCtx []) none [rootEntry] {} setup pre outcomes →
      payload.block.body.blockAccessList = some rebuilt →
        HoldsExactlyOnce rebuilt (partsOf (previousList setup.committed) pre outcomes) := by
  intro hall
  have hlist : (build sample {} {} (sampleCtx []) none (some [rootEntry]) {} []).map
      (fun outcome => outcome.payload.map fun payload => payload.block.body.blockAccessList) =
        .ok (some (some [])) := rfl
  obtain ⟨outcome, hbuild, houtcome⟩ := map_eq_ok.mp hlist
  obtain ⟨payload, hpayload, hrebuilt⟩ := Option.map_eq_some_iff.mp houtcome
  have hprepared : (setUp sample {} (sampleCtx []) none (some [rootEntry])).isOk := rfl
  obtain ⟨setup, hsetup⟩ := exists_ok hprepared
  have hrecorded : Recorded sample {} (sampleCtx []) none [rootEntry] {} setup
      [storesRoot 9] [] := by
    cases hsetup
    exact ⟨rfl, ⟨_, rfl, rfl⟩, rfl⟩
  have h := (hall outcome payload setup _ [] [] hbuild hpayload hrecorded hrebuilt).writes
  rw [partsOf_writes] at h
  obtain ⟨hshared, _⟩ := List.append_eq_nil_iff.mp (List.nil_perm.mp h)
  cases (List.append_eq_nil_iff.mp hshared).2

end WorldChain.Builder.AccessList
