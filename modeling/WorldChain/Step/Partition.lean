import WorldChain.Step.Sealed

/-! The flashblocks of a job partition its block. The span of a flashblock is
chosen by the counter in the step, while the barriers are in the payload. -/
namespace WorldChain.Step.Partition
open Library.Runs Wire.Primitives Wire.Collection Deps.Revm Deps.Reth Deps.Calls Deps.Concrete
open Executor.Process Publish SameHeader Job Sealed

variable {Tx Db Core : Type}

/-- The prologue's barrier holds no payload; afterwards only the step places barriers. -/
def Prologue (reached : PayloadJob Tx × List (Published Tx)) : Action Tx Db → Prop
  | .barrier context => reached.2 = [] ∧ context.maybeBuiltPayload = none
  | .add _ | .publish _ | .elsewhere _ => True

def Accepted (X : Crates Tx Db Core) (R : CheckpointExt Tx) (debugAssertions : Bool)
    (ctx : StepContext Tx Db) (reached : PayloadJob Tx × List (Published Tx)) :
    Action Tx Db → Prop
  | .publish now => (act X R debugAssertions ctx reached.1 (.publish now)).2 ≠ []
  | .add _ | .barrier _ | .elsewhere _ => True

def AllAccepted (X : Crates Tx Db Core) (R : CheckpointExt Tx) (debugAssertions : Bool)
    (ctx : StepContext Tx Db) (reached : PayloadJob Tx × List (Published Tx))
    (action : Action Tx Db) : Prop :=
  Prologue reached action ∧ Accepted X R debugAssertions ctx reached action

def indices (published : List (Published Tx)) : List Nat :=
  published.map fun p => p.flashblock.flashblock.index.toNat

def transactions (published : List (Published Tx)) : List Bytes :=
  published.flatMap fun p => p.flashblock.diff.transactions

def encodedTxs (X : Crates Tx Db Core) (checkpoints : List (Checkpoint Tx)) : List Bytes :=
  checkpoints.flatMap fun checkpoint => checkpoint.transactions.map fun tx => X.encoded2718 tx.inner

variable {X : Crates Tx Db Core} {R : CheckpointExt Tx} {debugAssertions : Bool}
  {ctx : StepContext Tx Db}

theorem accepted_publish {reached : PayloadJob Tx × List (Published Tx)} {now : Int}
    (h : Accepted X R debugAssertions ctx reached (.publish now)) :
    ∃ next published isNew,
      act X R debugAssertions ctx reached.1 (.publish now) =
          (⟨next, reached.1.entries ++ [.barrier ⟨some published.builtPayload⟩]⟩, [published]) ∧
        next.blockBase = reached.1.step.blockBase ∧
        next.blockNumber = reached.1.step.blockNumber + 1 ∧
        Made X debugAssertions ctx reached.1.step (payloadOf R ctx.block reached.1.entries)
          published ∧
        reached.1.step.p2p.inner.flashblocks.push published.flashblock =
          .ok (isNew, next.p2p.inner.flashblocks) := by
  have haccepts : (act X R debugAssertions ctx reached.1 (.publish now)).2 ≠ [] := h
  have houtcome := publish_outcome X R debugAssertions ctx reached.1 now
  generalize act X R debugAssertions ctx reached.1 (.publish now) = done at houtcome haccepts ⊢
  cases houtcome with
  | refused next hbase => exact absurd rfl haccepts
  | accepted next published isNew hbase hnumber hmade hpush =>
      exact ⟨next, published, isNew, rfl, hbase, hnumber, hmade, hpush⟩

theorem barriersFirst_of_prologue {reached : PayloadJob Tx × List (Published Tx)}
    {action : Action Tx Db} (h : Prologue reached action) : BarriersFirst reached action := by
  cases action with
  | barrier context => exact h.1
  | add checkpoint => trivial
  | publish now => trivial
  | elsewhere call => trivial

theorem index_of_made {step : PublishFlashblock Tx} {payload : Payload Tx}
    {published : Published Tx} (h : Made X debugAssertions ctx step payload published) :
    published.flashblock.flashblock.index = step.blockNumber := by
  obtain ⟨now, hflashblock⟩ := h.flashblock
  rw [hflashblock]
  rfl

theorem transactions_of_made {step : PublishFlashblock Tx} {payload : Payload Tx}
    {published : Published Tx} (h : Made X debugAssertions ctx step payload published) :
    published.flashblock.diff.transactions = encodedTxs X (unpublishedPayload step payload) := by
  obtain ⟨now, hflashblock⟩ := h.flashblock
  rw [hflashblock]
  rfl

/-! Where the span of the next flashblock begins. -/

theorem unpublished_first {step : PublishFlashblock Tx} (h : step.blockNumber = 0)
    (payload : Payload Tx) : unpublishedPayload step payload = payload.history := if_pos h

theorem unpublished_next {step : PublishFlashblock Tx} (h : step.blockNumber ≠ 0)
    {before staged : List (Entry Tx)} {context : WorldContext Tx}
    (hstaged : ∀ entry ∈ staged, entry.context = none) (block : BlockContext Tx) :
    unpublishedPayload step (payloadOf R block (before ++ .barrier context :: staged)) =
      staged.map Entry.checkpointOf := by
  rw [unpublishedPayload, if_neg h, payloadOf, staging_append_barrier before staged context hstaged]

/-- A flashblock either opens the job, or continues the last one from its barrier. -/
inductive Span (X : Crates Tx Db Core) (R : CheckpointExt Tx) (debugAssertions : Bool)
    (ctx : StepContext Tx Db) (published : List (Published Tx)) (step : PublishFlashblock Tx)
    (entries : List (Entry Tx)) : Prop
  | first (hnone : published = []) (hnumber : step.blockNumber = 0)
  | next (last : Published Tx) (earlier : PublishFlashblock Tx) (before staged : List (Entry Tx))
      (hlast : published.getLast? = some last) (hnumber : step.blockNumber ≠ 0)
      (hentries : entries = before ++ .barrier ⟨some last.builtPayload⟩ :: staged)
      (hstaged : ∀ entry ∈ staged, entry.context = none)
      (hmade : Made X debugAssertions ctx earlier (payloadOf R ctx.block before) last)

theorem span_of_held {job : PayloadJob Tx} {published : List (Published Tx)}
    (hheld : Held X R debugAssertions ctx (job, published))
    (hnumber : job.step.blockNumber.toNat = published.length) :
    Span X R debugAssertions ctx published job.step job.entries := by
  cases hlast : published.getLast? with
  | none =>
      have hnone := List.getLast?_eq_none_iff.mp hlast
      apply Span.first hnone
      apply UInt64.toNat_inj.mp
      rw [hnumber, hnone]
      rfl
  | some last =>
      obtain ⟨earlier, before, staged, hentries, hstaged, hmade⟩ := hheld last hlast
      apply Span.next last earlier before staged hlast ?_ hentries hstaged hmade
      intro hzero
      rw [hzero] at hnumber
      rw [List.length_eq_zero_iff.mp hnumber.symm] at hlast
      cases hlast

def Partitioned (X : Crates Tx Db Core) (reached : PayloadJob Tx × List (Published Tx)) : Prop :=
  indices reached.2 = List.range reached.2.length →
    ∀ last ∈ reached.2.getLast?, transactions reached.2 = encodedTxs X last.payload.history

theorem indices_concat {published : List (Published Tx)} {p : Published Tx}
    (h : indices (published ++ [p]) = List.range (published ++ [p]).length) :
    indices published = List.range published.length ∧
      p.flashblock.flashblock.index.toNat = published.length := by
  rw [List.length_append, List.length_singleton, List.range_succ, indices, List.map_append] at h
  obtain ⟨hbefore, hlast⟩ := List.append_inj' h rfl
  exact ⟨hbefore, (List.cons.inj hlast).1⟩

theorem encodedTxs_history (before staged : List (Entry Tx)) (context : WorldContext Tx)
    (block : BlockContext Tx) :
    encodedTxs X (payloadOf R block (before ++ .barrier context :: staged)).history =
      encodedTxs X (payloadOf R block before).history ++
        encodedTxs X (staged.map Entry.checkpointOf) := by
  simp [encodedTxs, payloadOf, Entry.checkpointOf]

theorem partitioned_act {reached : PayloadJob Tx × List (Published Tx)}
    (hheld : Held X R debugAssertions ctx reached) (hpartitioned : Partitioned X reached)
    (action : Action Tx Db) :
    Partitioned X ((act X R debugAssertions ctx reached.1 action).1,
      reached.2 ++ (act X R debugAssertions ctx reached.1 action).2) := by
  cases action with
  | add checkpoint => rwa [act, List.append_nil]
  | barrier context => rwa [act, List.append_nil]
  | elsewhere call => rwa [act, List.append_nil]
  | publish now =>
      have houtcome := publish_outcome X R debugAssertions ctx reached.1 now
      generalize act X R debugAssertions ctx reached.1 (.publish now) = done at houtcome ⊢
      cases houtcome with
      | refused next hbase => rwa [List.append_nil]
      | accepted next published isNew hbase hnumber hmade hpush =>
          intro hindices last hlast
          rw [List.getLast?_concat] at hlast
          cases hlast
          obtain ⟨hbefore, hindex⟩ := indices_concat hindices
          rw [index_of_made hmade] at hindex
          rw [transactions, List.flatMap_append, List.flatMap_singleton, transactions_of_made hmade,
            hmade.spans]
          cases span_of_held hheld hindex with
          | first hnone hzero =>
              rw [unpublished_first hzero, hnone]
              rfl
          | next earlier publisher before staged hlast hzero hentries hstaged hmadeEarlier =>
              have hearlier := hpartitioned hbefore earlier hlast
              rw [hmadeEarlier.spans] at hearlier
              rw [hentries, unpublished_next hzero hstaged, encodedTxs_history, ← hearlier]
              rfl

/-! The counter, when every publish is accepted. It wraps only behind an index
that the executor would refuse, as its base timestamp never goes back. -/

def timestampOf (executor : FlashblocksStateExecutor Tx) : UInt64 :=
  executor.inner.flashblocks.base.timestamp

theorem push_timestamp {self next : Flashblocks} {fb : Flashblock} {isNew : Bool}
    (h : self.push fb = .ok (isNew, next)) : self.base.timestamp ≤ next.base.timestamp := by
  have hbase := push_base h
  cases isNew with
  | true => exact UInt64.le_of_lt hbase.2
  | false =>
      have hsame : next.base = self.base := hbase
      rw [hsame]
      exact UInt64.le_refl _

theorem timestamp_elsewhere (executor : FlashblocksStateExecutor Tx)
    (call : Executor.Coupling.Call Tx Db) :
    timestampOf executor ≤
      timestampOf (Executor.Coupling.step X debugAssertions executor call).1 := by
  cases call with
  | registerPayloadEvents => exact UInt64.le_refl _
  | publishBuiltPayload payload builtPayload id_eq =>
      simp only [Executor.Coupling.step]
      cases publishBuiltPayload_cases executor payload builtPayload with
      | inl hrefused =>
          obtain ⟨e, heq⟩ := hrefused
          rw [heq]
          exact UInt64.le_refl _
      | inr hpublished =>
          obtain ⟨isNew, flashblocks, hpush, heq⟩ := hpublished
          rw [heq]
          exact push_timestamp hpush
  | processFlashblock provider chainSpec fuel flashblock =>
      cases hdone : processFlashblock X debugAssertions provider chainSpec fuel executor flashblock
        with
      | none =>
          simp only [Executor.Coupling.step, hdone]
          exact UInt64.le_refl _
      | some done =>
          simp only [Executor.Coupling.step, hdone]
          cases processed hdone with
          | known payload hknown => exact UInt64.le_refl _
          | refused e hunknown hrefused => exact UInt64.le_refl _
          | failed isNew e events hunknown hisNew hfailed hevents =>
              unfold timestampOf
              rw [opened_flashblocks]
              exact UInt64.le_refl _
          | installed isNew payload next hunknown hisNew hbuilds hassertion hpush =>
              exact push_timestamp hpush

/-- The counter is the number of flashblocks published, and they carry the
numbers before it. -/
structure Counted (ctx : StepContext Tx Db) (reached : PayloadJob Tx × List (Published Tx)) :
    Prop where
  base : reached.1.step.blockBase = some (executionPayloadBase ctx)
  number : reached.1.step.blockNumber.toNat = reached.2.length % UInt64.size
  indices : indices reached.2 = List.range reached.2.length
  later : reached.2 ≠ [] → ctx.block.timestamp ≤ timestampOf reached.1.step.p2p

theorem length_le_of_indices {published : List (Published Tx)}
    (h : indices published = List.range published.length) : published.length ≤ UInt64.size := by
  cases hlength : published.length with
  | zero => exact Nat.zero_le _
  | succ n =>
      have hmem : n ∈ indices published := by
        rw [h, hlength]
        exact List.self_mem_range_succ
      obtain ⟨p, _, hindex⟩ := List.mem_map.mp hmem
      rw [← hindex]
      exact p.flashblock.flashblock.index.toNat_lt_size

/-- An accepted flashblock continues the count; it is not a wrapped zero. -/
theorem number_of_accepted {reached : PayloadJob Tx × List (Published Tx)}
    (hcounted : Counted ctx reached) {published : Published Tx} {isNew : Bool} {next : Flashblocks}
    (hmade : Made X debugAssertions ctx reached.1.step (payloadOf R ctx.block reached.1.entries)
      published)
    (hpush : reached.1.step.p2p.inner.flashblocks.push published.flashblock = .ok (isNew, next)) :
    reached.1.step.blockNumber.toNat = reached.2.length ∧
      ctx.block.timestamp ≤ next.base.timestamp := by
  have hle := length_le_of_indices hcounted.indices
  have hnumber := hcounted.number
  have hbase : published.flashblock.base = some (executionPayloadBase ctx) := by
    obtain ⟨now, hflashblock⟩ := hmade.flashblock
    rw [hflashblock, ← hcounted.base]
    rfl
  have hpushed := push_base hpush
  have hindex := index_of_made hmade
  cases isNew with
  | true =>
      have hnew := hpushed.1
      rw [hbase] at hnew
      have htimestamp : next.base.timestamp = ctx.block.timestamp := by
        rw [← Option.some.inj hnew]
        rfl
      have hnone : reached.2 = [] := by
        by_contra hne
        have hlater := hpushed.2
        rw [htimestamp] at hlater
        exact UInt64.not_le.mpr hlater (hcounted.later hne)
      rw [hnone] at hnumber ⊢
      rw [htimestamp]
      exact ⟨hnumber, UInt64.le_refl _⟩
  | false =>
      have hsame : next.base = reached.1.step.p2p.inner.flashblocks.base := hpushed
      have hlength := (isNewPayload_false (push_ok hpush).1).2
      have hpos := List.length_pos_iff.mpr reached.1.step.p2p.inner.flashblocks.guaranteed.nonempty
      rw [hindex] at hlength
      have hne : reached.2 ≠ [] := by
        intro hnone
        rw [hnone] at hnumber
        simp at hnumber
        omega
      rw [hsame]
      refine ⟨?_, hcounted.later hne⟩
      have hlt : reached.2.length ≠ UInt64.size := by
        intro hfull
        rw [hfull, Nat.mod_self] at hnumber
        omega
      rw [hnumber, Nat.mod_eq_of_lt (by omega)]

theorem counted_act {reached : PayloadJob Tx × List (Published Tx)} {action : Action Tx Db}
    (hcounted : Counted ctx reached) (haccepted : Accepted X R debugAssertions ctx reached action) :
    Counted ctx ((act X R debugAssertions ctx reached.1 action).1,
      reached.2 ++ (act X R debugAssertions ctx reached.1 action).2) := by
  obtain ⟨hbase, hnumber, hindices, hlater⟩ := hcounted
  cases action with
  | add checkpoint =>
      rw [act, List.append_nil]
      exact ⟨hbase, hnumber, hindices, hlater⟩
  | barrier context =>
      rw [act, List.append_nil]
      exact ⟨hbase, hnumber, hindices, hlater⟩
  | elsewhere call =>
      rw [act, List.append_nil]
      refine ⟨hbase, hnumber, hindices, ?_⟩
      intro hne
      exact UInt64.le_trans (hlater hne) (timestamp_elsewhere _ call)
  | publish now =>
      obtain ⟨next, published, isNew, hdone, hkept, hnext, hmade, hpush⟩ :=
        accepted_publish haccepted
      have hcount : Counted ctx reached := ⟨hbase, hnumber, hindices, hlater⟩
      obtain ⟨hnumber', hlater'⟩ := number_of_accepted hcount hmade hpush
      rw [hdone]
      refine ⟨hkept.trans hbase, ?_, ?_, fun _ => hlater'⟩
      · dsimp only
        rw [hnext, UInt64.toNat_add, hnumber', List.length_append]
        rfl
      · rw [indices, List.map_append, List.length_append, List.length_singleton,
          List.range_succ, List.map_singleton, index_of_made hmade, hnumber', ← hindices]
        rfl

/-! Whole jobs. -/

theorem meets_barriersFirst {start : PayloadJob Tx} {actions : List (Action Tx Db)}
    (h : Meets (act X R debugAssertions ctx) (AllAccepted X R debugAssertions ctx) start actions) :
    Meets (act X R debugAssertions ctx) BarriersFirst start actions :=
  fun before action after heq => barriersFirst_of_prologue (h before action after heq).1

theorem counted_along_run {self : PublishFlashblock Tx} {actions : List (Action Tx Db)}
    (h : Meets (act X R debugAssertions ctx) (AllAccepted X R debugAssertions ctx) (begin ctx self)
      actions) :
    Counted ctx (exec (act X R debugAssertions ctx) (begin ctx self) actions) := by
  apply exec_invariant (Counted ctx) ?_ ?_ h
  · exact ⟨rfl, rfl, rfl, fun hne => absurd rfl hne⟩
  · intro reached action hcounted hcond
    exact counted_act hcounted hcond.2

theorem partitioned_along_run {start : PayloadJob Tx} {actions : List (Action Tx Db)}
    (h : Meets (act X R debugAssertions ctx) BarriersFirst start actions) :
    Partitioned X (exec (act X R debugAssertions ctx) start actions) := by
  have hrun := exec_invariant (fun reached => Held X R debugAssertions ctx reached ∧
    Partitioned X reached) ⟨(fun _ hlast => nomatch hlast), fun _ _ hlast => nomatch hlast⟩ ?_ h
  · exact hrun.2
  · intro reached action hreached hfirst
    exact ⟨held_act hreached.1 hfirst, partitioned_act hreached.1 hreached.2 action⟩

/-- After every publish the flashblocks hold the transactions of the history
once each and in order, and are numbered from zero. -/
theorem flashblocks_partition {self : PublishFlashblock Tx} {actions : List (Action Tx Db)}
    {now : Int}
    (hjob : Meets (act X R debugAssertions ctx) (AllAccepted X R debugAssertions ctx)
      (begin ctx self) (actions ++ [.publish now])) :
    let entries := (exec (act X R debugAssertions ctx) (begin ctx self) actions).1.entries
    let published := (exec (act X R debugAssertions ctx) (begin ctx self)
      (actions ++ [.publish now])).2
    transactions published = encodedTxs X (payloadOf R ctx.block entries).history ∧
      indices published = List.range published.length := by
  have hcounted := counted_along_run hjob
  refine ⟨?_, hcounted.indices⟩
  have hpartitioned := partitioned_along_run (meets_barriersFirst hjob) hcounted.indices
  have haccepted := hjob.last.2
  rw [exec_concat] at hpartitioned ⊢
  generalize hreached : exec (act X R debugAssertions ctx) (begin ctx self) actions = reached
    at hpartitioned haccepted ⊢
  obtain ⟨next, last, isNew, hdone, _, _, hmade, _⟩ := accepted_publish haccepted
  rw [hdone] at hpartitioned ⊢
  have htransactions := hpartitioned last List.getLast?_concat
  rw [hmade.spans] at htransactions
  exact htransactions

theorem allAccepted_two :
    Meets (act sample sampleExt false sampleJob) (AllAccepted sample sampleExt false sampleJob)
      (begin sampleJob ⟨.new none, 0, none⟩)
      ([] ++ [.add (sampleCheckpoint 0)] ++ [.barrier {}] ++ [.publish 0] ++
        [.add (sampleCheckpoint 1)] ++ [.publish 1]) := by
  refine ((((Meets.nil.concat ?_).concat ?_).concat ?_).concat ?_).concat ?_
  · exact ⟨trivial, trivial⟩
  · exact ⟨⟨rfl, rfl⟩, trivial⟩
  · exact ⟨trivial, List.cons_ne_nil _ _⟩
  · exact ⟨trivial, trivial⟩
  · exact ⟨trivial, List.cons_ne_nil _ _⟩

theorem flashblocks_partition_two :
    transactions (exec (act sample sampleExt false sampleJob) (begin sampleJob ⟨.new none, 0, none⟩)
      [.add (sampleCheckpoint 0), .barrier {}, .publish 0, .add (sampleCheckpoint 1),
        .publish 1]).2 = [[1, 0], [1, 1]] :=
  (flashblocks_partition allAccepted_two).1

end WorldChain.Step.Partition
