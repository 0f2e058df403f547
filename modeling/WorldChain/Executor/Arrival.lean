import WorldChain.Executor.Agreement
import WorldChain.Executor.Preconfirmed
import WorldChain.P2p.Delivery

/-! From `publish_new` to the pending block: a payload that is published arrives at the
executors of the nodes to which links lead. -/
namespace WorldChain.Executor.Arrival
open Library.Fallible Library.Broadcast Library.Overlay Library.ReorderBuffer Library.Runs
open Wire.Primitives Wire.Collection Wire.Message Wire.Alloy Deps.Revm Deps.Reth Deps.Calls
open Deps.Concrete P2p.Publish P2p.Peers P2p.Honest P2p.Lagging P2p.Provenance P2p.WithinPayload
open P2p.Spreading P2p.Delivery Process Announced Coupling Agreement Preconfirmed

variable {ι Tx Db Core : Type}

/-- Flashblocks that execute, one on top of the other, and in debug builds to the blocks
they announce. -/
def Sound (X : Crates Tx Db Core) (debugAssertions : Bool) (chain : Chain Db)
    (chainSpec : OpChainSpec) (base : ExecutionPayloadBaseV1) (flashblocks : List Flashblock) :
    Prop :=
  ∀ before flashblock after, flashblocks = before ++ flashblock :: after →
    ∃ payload, executeAll X chain chainSpec base (before ++ [flashblock]) = .ok (some payload) ∧
      (debugAssertions → X.blockHash payload.block = flashblock.diff.blockHash)

/-- A provider that has the state to build on, and the header as soon as it answers. -/
structure Supplies (chain : Chain Db) (base : ExecutionPayloadBaseV1) (provider : Provider Db) :
    Prop where
  serves : Serves chain provider
  state : provider.stateByBlockHash base.parentHash = .ok (chain.state base.parentHash)

structure Opens (id : PayloadId) (base : ExecutionPayloadBaseV1)
    (inner : FlashblocksStateExecutorInner Tx) : Prop where
  payloadId : id ≠ inner.flashblocks.payloadId
  later : inner.flashblocks.base.timestamp < base.timestamp
  latest : ∀ payload index, inner.latestPayload = some (payload, index) → payload.id ≠ id

inductive Reached (X : Crates Tx Db Core) (chain : Chain Db) (chainSpec : OpChainSpec)
    (id : PayloadId) (base : ExecutionPayloadBaseV1) (executor : FlashblocksStateExecutor Tx) :
    List Flashblock → Prop
  | unopened (hopens : Opens id base executor.inner) :
      Reached X chain chainSpec id base executor []
  | holding (hid : executor.inner.flashblocks.payloadId = id)
      (hbase : executor.inner.flashblocks.base = base)
      (hexecuted : Executed X chain chainSpec executor) :
      Reached X chain chainSpec id base executor executor.inner.flashblocks.toList

variable {X : Crates Tx Db Core} {debugAssertions : Bool} {chain : Chain Db}
variable {chainSpec : OpChainSpec} {id : PayloadId} {base : ExecutionPayloadBaseV1}

theorem builds_of_execute {provider : Provider Db} (h : Supplies chain base provider) {fuel : Nat}
    {committed : Option (OpBuiltPayload Tx)} {flashblock : Flashblock}
    {payload : OpBuiltPayload Tx}
    (hexecute : execute X chain chainSpec base committed flashblock = .ok (some payload))
    (hreturned : (buildArgs X provider chainSpec fuel base committed flashblock).isSome) :
    ∃ args, buildArgs X provider chainSpec fuel base committed flashblock = some (.ok args) ∧
      buildContents X base committed flashblock args = .ok (some payload) := by
  obtain ⟨attributes, hattributes, hrest⟩ := bind_eq_ok.mp hexecute
  obtain ⟨args, hargs, hcontents⟩ := bind_eq_ok.mp hrest
  refine ⟨args, ?_, hcontents⟩
  unfold buildArgs at hreturned ⊢
  rw [hattributes] at hreturned ⊢
  obtain ⟨header, hheader⟩ := Option.isSome_iff_exists.mp (Option.isSome_map ▸ hreturned)
  obtain ⟨attempt, hanswer⟩ := fetchHeaderRetrying_eq_some hheader
  have hat : argsAt X provider base committed attributes header = .ok args := by
    rw [h.serves.header _ _ _ hanswer, ← hargs]
    unfold argsAt
    rw [h.state, h.serves.chainSpec]
    rfl
  rw [hheader]
  exact congrArg some hat

theorem installs {provider : Provider Db} (h : Supplies chain base provider) {fuel : Nat}
    {self : FlashblocksStateExecutor Tx} {isNew : Bool} {flashblock : Flashblock}
    {payload : OpBuiltPayload Tx} {done : Returned Tx}
    (hunknown : alreadyProcessed self.inner flashblock = none)
    (hisNew : self.inner.flashblocks.isNewPayload flashblock = .ok isNew)
    (hbase : baseOf (opened self isNew) isNew flashblock = .ok base)
    (hexecute : execute X chain chainSpec base
      ((opened self isNew).inner.latestPayload.map Prod.fst) flashblock = .ok (some payload))
    (hassertion : debugAssertions → X.blockHash payload.block = flashblock.diff.blockHash)
    (hdone : processFlashblock X debugAssertions provider chainSpec fuel self flashblock =
      some done) :
    ∃ next, self.inner.flashblocks.push flashblock = .ok (isNew, next) ∧
      done.executor = ⟨⟨next, some (payload, flashblock.flashblock.index),
        self.inner.payloadEvents⟩, payload.executedBlock⟩ := by
  have hreturned := hdone
  unfold processFlashblock at hreturned
  rw [hunknown] at hreturned
  simp only [hisNew, hbase] at hreturned
  obtain ⟨answer, hanswer, _⟩ := Option.map_eq_some_iff.mp hreturned
  obtain ⟨args, hargs, hcontents⟩ := builds_of_execute h hexecute
    (Option.isSome_iff_exists.mpr ⟨answer, hanswer⟩)
  have hbuilds : Builds X provider chainSpec fuel (opened self isNew) isNew flashblock payload :=
    ⟨base, args, hbase, hargs, hcontents⟩
  cases processed hdone with
  | known _ hknown =>
      rw [hunknown] at hknown
      cases hknown
  | refused _ _ hrefused =>
      rw [hisNew] at hrefused
      cases hrefused
  | failed isNew' e events _ hisNew' hfailed =>
      rw [hisNew] at hisNew'
      cases hisNew'
      obtain ⟨hdebug, hne⟩ := hfailed payload hbuilds
      exact (hne (hassertion hdebug)).elim
  | installed isNew' payload' next _ hisNew' hbuilds' _ hpush =>
      rw [hisNew] at hisNew'
      cases hisNew'
      rw [builds_unique hbuilds hbuilds']
      exact ⟨next, hpush, rfl⟩

theorem last_index (flashblocks : Flashblocks) :
    flashblocks.last.flashblock.index.toNat + 1 = flashblocks.toList.length := by
  have hpos := List.length_pos_iff.mpr flashblocks.guaranteed.nonempty
  have hindex := flashblocks.guaranteed.index (flashblocks.toList.length - 1) (by omega)
  rw [List.getElem_length_sub_one_eq_getLast] at hindex
  rw [Flashblocks.last, hindex]
  omega

theorem reached_of_installed {executor : FlashblocksStateExecutor Tx} {next : Flashblocks}
    {flashblock : Flashblock} {payload : OpBuiltPayload Tx} {payloadEvents : Bool}
    (hafter : executor = ⟨⟨next, some (payload, flashblock.flashblock.index), payloadEvents⟩,
      payload.executedBlock⟩) (hlast : next.last = flashblock) (hid : next.payloadId = id)
    (hbase : next.base = base)
    (hall : executeAll X chain chainSpec base next.toList = .ok (some payload)) :
    Reached X chain chainSpec id base executor next.toList := by
  subst hafter
  refine Reached.holding hid hbase ⟨payload, ?_, ?_, rfl⟩
  · rw [hbase]
    exact hall
  · rw [hlast]

theorem Reached.process {self : FlashblocksStateExecutor Tx} {before after : List Flashblock}
    {flashblock : Flashblock} (h : Reached X chain chainSpec id base self before)
    (hsound : Sound X debugAssertions chain chainSpec base (before ++ flashblock :: after))
    (hid : flashblock.payloadId = id) (hindex : flashblock.flashblock.index.toNat = before.length)
    (hfirst : before = [] → flashblock.base = some base) {provider : Provider Db}
    (hsupplies : Supplies chain base provider) {fuel : Nat} {done : Returned Tx}
    (hdone : processFlashblock X debugAssertions provider chainSpec fuel self flashblock =
      some done) :
    Reached X chain chainSpec id base done.executor (before ++ [flashblock]) := by
  obtain ⟨payload, hall, hassertion⟩ := hsound before flashblock after rfl
  cases h with
  | unopened hopens =>
      have hbase := hfirst rfl
      have hzero : flashblock.flashblock.index = 0 := UInt64.toNat_inj.mp hindex
      have hunknown : alreadyProcessed self.inner flashblock = none := by
        cases hlatest : self.inner.latestPayload with
        | none => simp only [alreadyProcessed, hlatest]
        | some latest =>
            simp only [alreadyProcessed, hlatest]
            rw [if_neg]
            rintro ⟨hsame, _⟩
            exact hopens.latest _ _ hlatest (hsame.trans hid)
      have hisNew : self.inner.flashblocks.isNewPayload flashblock = .ok true := by
        rw [isNewPayload_of_later (hid ▸ hopens.payloadId) hbase hopens.later,
          if_neg (not_not.mpr hzero)]
      rw [executeAll_concat (executeAll_nil base)] at hall
      obtain ⟨next, hpush, hafter⟩ := installs hsupplies hunknown hisNew
        (orPanic_eq_ok.mpr hbase) hall hassertion hdone
      obtain ⟨_, hlast, hnext, htoList⟩ := push_ok hpush
      have hown : next.base = base := Option.some.inj ((push_base hpush).1.symm.trans hbase)
      have hreached := reached_of_installed hafter hlast (hnext.trans hid) hown (by
        rw [htoList]
        exact (executeAll_concat (executeAll_nil base) flashblock).trans hall)
      rw [htoList] at hreached
      exact hreached
  | holding hsame hbase hexecuted =>
      obtain ⟨previous, hprevious, hlatest, _⟩ := hexecuted
      rw [hbase] at hprevious
      have hunknown : alreadyProcessed self.inner flashblock = none := by
        simp only [alreadyProcessed, hlatest]
        rw [if_neg]
        rintro ⟨_, hle⟩
        have hlast := last_index self.inner.flashblocks
        have hle' := UInt64.le_iff_toNat_le.mp hle
        omega
      have hisNew : self.inner.flashblocks.isNewPayload flashblock = .ok false :=
        isNewPayload_false_iff.mpr ⟨hid.trans hsame.symm, hindex⟩
      rw [executeAll_concat hprevious] at hall
      have hcommitted : (opened self false).inner.latestPayload.map Prod.fst = some previous := by
        simp [opened, hlatest]
      obtain ⟨next, hpush, hafter⟩ := installs hsupplies hunknown hisNew
        (congrArg Except.ok hbase) (by rw [hcommitted, hall]) hassertion hdone
      obtain ⟨_, hlast, hnext, htoList⟩ := push_ok hpush
      have hown : next.base = self.inner.flashblocks.base := push_base hpush
      have hreached := reached_of_installed hafter hlast (hnext.trans hid) (hown.trans hbase) (by
        rw [htoList]
        exact (executeAll_concat hprevious flashblock).trans hall)
      rw [htoList] at hreached
      exact hreached

/-! The loop at one node. -/

/-- The node does not build, and its provider has what the payload builds on. -/
def Receives (chain : Chain Db) (chainSpec : OpChainSpec) (base : ExecutionPayloadBaseV1)
    (node : ι) : Agreement.Event ι Tx Db → Prop
  | .publishBuiltPayload other _ _ _ _ => other ≠ node
  | .process other provider spec _ => other = node → Supplies chain base provider ∧ spec = chainSpec
  | .registerPayloadEvents _ | .outbound _ _ | .inbound _ _ _ | .deliver _ _ => True

/-- The executor has processed what its stream has yielded after the first `skipped`. -/
structure Arriving (X : Crates Tx Db Core) (chain : Chain Db) (chainSpec : OpChainSpec)
    (id : PayloadId) (base : ExecutionPayloadBaseV1) (node : ι) (skipped : Nat)
    (cluster : Cluster ι Tx) : Prop where
  ended : (cluster.streams node).ended = false
  from_skipped : skipped ≤ (cluster.streams node).receiver.next
  to_sent : (cluster.streams node).receiver.next ≤ (cluster.streams node).receiver.sent.length
  reached : Reached X chain chainSpec id base (cluster.executors node)
    ((((cluster.streams node).receiver.sent.take
      (cluster.streams node).receiver.next).drop skipped).map Flashblock.mk)

structure Numbered (id : PayloadId) (base : ExecutionPayloadBaseV1)
    (payloads : List FlashblocksPayload) : Prop where
  payloadId : ∀ payload ∈ payloads, payload.payloadId = id
  index : ∀ i, (h : i < payloads.length) → payloads[i].index.toNat = i
  base : ∀ first ∈ payloads.head?, first.base = some base

theorem Numbered.index_split {payloads : List FlashblocksPayload} (h : Numbered id base payloads)
    {before after : List FlashblocksPayload} {flashblock : FlashblocksPayload}
    (hsplit : payloads = before ++ flashblock :: after) :
    flashblock.index.toNat = before.length := by
  subst hsplit
  have hindex := h.index before.length (by simp)
  simpa using hindex

theorem pollNext_kept {stream : FlashblockStream} {emitted : List FlashblocksPayload}
    (h : Subscribed stream emitted) (hended : stream.ended = false) {capacity : Nat}
    (hkept : emitted.length ≤ stream.receiver.next + capacity) :
    stream.pollNext capacity =
      match emitted[stream.receiver.next]? with
      | some flashblock =>
          ({ stream with receiver := { stream.receiver with next := stream.receiver.next + 1 } },
            .item flashblock)
      | none => (stream, .pending) := by
  have hle : ¬stream.receiver.next < stream.receiver.oldest capacity := by
    rw [Receiver.oldest, h.sent]
    omega
  unfold FlashblockStream.pollNext Receiver.recv
  rw [h.current, if_neg hle, h.sent]
  cases emitted[stream.receiver.next]? with
  | some flashblock => simp [hended, h.sent]
  | none =>
      have hsame : stream = { stream with current := [], ended := false } := by
        rw [← h.current, ← hended]
      simpa [hended, h.opened] using hsame.symm

variable {node : ι} {skipped capacity : Nat} {self : Cluster ι Tx}
variable {emitted payloads : List FlashblocksPayload}

theorem Arriving.emit (h : Arriving X chain chainSpec id base node skipped self)
    (hsubscribed : Subscribed (self.streams node) emitted) {other : Cluster ι Tx}
    (more : List FlashblocksPayload)
    (hstream : other.streams node = Agreement.emit (self.streams node) more)
    (hexecutor : ∀ flashblocks, Reached X chain chainSpec id base (self.executors node) flashblocks →
      Reached X chain chainSpec id base (other.executors node) flashblocks) :
    Arriving X chain chainSpec id base node skipped other := by
  have hreceiver : (other.streams node).receiver =
      { (self.streams node).receiver with
        sent := (self.streams node).receiver.sent ++ more } := by
    rw [hstream, Agreement.emit, send_all hsubscribed.opened]
  constructor
  · rw [hstream]
    exact h.ended
  · rw [hreceiver]
    exact h.from_skipped
  · rw [hreceiver, List.length_append]
    exact Nat.le_add_right_of_le h.to_sent
  · rw [hreceiver]
    dsimp only
    rw [List.take_append_of_le_length h.to_sent]
    exact hexecutor _ h.reached

theorem Reached.registerPayloadEvents {executor : FlashblocksStateExecutor Tx}
    {flashblocks : List Flashblock} (h : Reached X chain chainSpec id base executor flashblocks) :
    Reached X chain chainSpec id base (Process.registerPayloadEvents executor) flashblocks := by
  cases h with
  | unopened hopens => exact .unopened ⟨hopens.payloadId, hopens.later, hopens.latest⟩
  | holding hid hbase hexecuted =>
      exact @Reached.holding _ _ _ X chain chainSpec id base (Process.registerPayloadEvents executor)
        hid hbase hexecuted

theorem emitted_split (hstarts : emitted.drop skipped <+: payloads) {next : Nat}
    (hskipped : skipped ≤ next) {flashblock : FlashblocksPayload}
    (hnext : emitted[next]? = some flashblock) :
    ∃ after, payloads = (emitted.take next).drop skipped ++ flashblock :: after ∧
      (emitted.take (next + 1)).drop skipped = (emitted.take next).drop skipped ++ [flashblock] := by
  obtain ⟨rest, hrest⟩ := hstarts
  obtain ⟨hlt, hget⟩ := List.getElem?_eq_some_iff.mp hnext
  have hlength : skipped ≤ (emitted.take next).length := by
    rw [List.length_take]
    omega
  have hsplit : emitted = emitted.take next ++ flashblock :: emitted.drop (next + 1) := by
    rw [← hget, ← List.drop_eq_getElem_cons hlt, List.take_append_drop]
  refine ⟨emitted.drop (next + 1) ++ rest, ?_, ?_⟩
  · rw [← hrest]
    conv_lhs => rw [hsplit]
    rw [List.drop_append_of_le_length hlength]
    simp
  · rw [List.take_add_one, hnext, Option.toList_some, List.drop_append_of_le_length hlength]

theorem Arriving.polled [DecidableEq ι] (h : Arriving X chain chainSpec id base node skipped self)
    (hsubscribed : Subscribed (self.streams node) emitted)
    (hstarts : emitted.drop skipped <+: payloads) (hnumbered : Numbered id base payloads)
    (hsound : Sound X debugAssertions chain chainSpec base (payloads.map Flashblock.mk))
    {flashblock : FlashblocksPayload}
    (hnext : emitted[(self.streams node).receiver.next]? = some flashblock)
    {stream : FlashblockStream}
    (hstream : stream = { self.streams node with
      receiver := { (self.streams node).receiver with
        next := (self.streams node).receiver.next + 1 } })
    {provider : Provider Db} (hsupplies : Supplies chain base provider) {fuel : Nat}
    {done : Returned Tx}
    (hdone : processFlashblock X debugAssertions provider chainSpec fuel (self.executors node)
      ⟨flashblock⟩ = some done) :
    Arriving X chain chainSpec id base node skipped
      ((self.setStream node stream).setExecutor node done.executor) := by
  obtain ⟨after, hsplit, htaken⟩ := emitted_split hstarts h.from_skipped hnext
  have hlt := (List.getElem?_eq_some_iff.mp hnext).1
  have hreached := h.reached
  rw [hsubscribed.sent] at hreached
  have hmem : flashblock ∈ payloads := by
    rw [hsplit]
    exact List.mem_append_right _ List.mem_cons_self
  have hstream' : ((self.setStream node stream).setExecutor node done.executor).streams node =
      stream := by
    simp [Cluster.setStream, Cluster.setExecutor]
  have hexecutor : ((self.setStream node stream).setExecutor node done.executor).executors node =
      done.executor := by
    simp [Cluster.setExecutor]
  constructor
  · rw [hstream', hstream]
    exact h.ended
  · rw [hstream', hstream]
    exact Nat.le_succ_of_le h.from_skipped
  · rw [hstream', hstream]
    dsimp only
    rw [hsubscribed.sent]
    exact hlt
  · rw [hstream', hexecutor, hstream]
    dsimp only
    rw [hsubscribed.sent, htaken, List.map_append, List.map_cons, List.map_nil]
    rw [hsplit, List.map_append, List.map_cons] at hsound
    apply hreached.process hsound (hnumbered.payloadId flashblock hmem) ?_ ?_ hsupplies hdone
    · rw [List.length_map]
      exact hnumbered.index_split hsplit
    · intro hnil
      apply hnumbered.base flashblock
      rw [hsplit, List.map_eq_nil_iff.mp hnil]
      exact rfl

theorem step_elsewhere [DecidableEq ι] {D : Codecs FlashblockMetadata} {linked : ι → ι → Bool}
    {other : ι} {provider : Provider Db} {spec : OpChainSpec} {fuel : Nat} (hne : other ≠ node) :
    let after := (self.step X debugAssertions capacity D linked (.process other provider spec fuel)).1
    after.streams node = Agreement.emit (self.streams node) [] ∧
      after.executors node = self.executors node := by
  simp only [Cluster.step]
  cases hpoll : ((self.streams other).pollNext capacity).2 with
  | pending => simp [Cluster.setStream, Ne.symm hne, Agreement.emit]
  | ended => simp [Cluster.setStream, Ne.symm hne, Agreement.emit]
  | item flashblock =>
      cases hdone : processFlashblock X debugAssertions provider spec fuel (self.executors other)
          ⟨flashblock⟩ with
      | none => simp [hdone, Agreement.emit]
      | some done =>
          simp [hdone, Cluster.setStream, Cluster.setExecutor, Ne.symm hne, Agreement.emit]

/-- The step lemma: whatever happens, the executor takes what it polls. -/
theorem Arriving.step [DecidableEq ι] {D : Codecs FlashblockMetadata} {linked : ι → ι → Bool}
    (h : Arriving X chain chainSpec id base node skipped self)
    (hsubscribed : Subscribed (self.streams node) emitted)
    (hstarts : emitted.drop skipped <+: payloads) (hcapacity : payloads.length ≤ capacity)
    (hnumbered : Numbered id base payloads)
    (hsound : Sound X debugAssertions chain chainSpec base (payloads.map Flashblock.mk))
    {event : Agreement.Event ι Tx Db} (hreceives : Receives chain chainSpec base node event) :
    Arriving X chain chainSpec id base node skipped
      (self.step X debugAssertions capacity D linked event).1 := by
  cases event with
  | outbound => exact h.emit hsubscribed _ rfl fun _ hreached => hreached
  | inbound => exact h.emit hsubscribed _ rfl fun _ hreached => hreached
  | deliver => exact h.emit hsubscribed _ rfl fun _ hreached => hreached
  | publishBuiltPayload other now payload builtPayload id_eq =>
      apply h.emit hsubscribed _ rfl
      intro flashblocks hreached
      simpa [Cluster.step, Cluster.exchange, Cluster.setExecutor, Ne.symm hreceives] using hreached
  | registerPayloadEvents other =>
      refine h.emit hsubscribed [] ?_ ?_
      · rfl
      intro flashblocks hreached
      by_cases heq : node = other
      · subst heq
        simpa [Cluster.step, Cluster.setExecutor] using hreached.registerPayloadEvents
      · simpa [Cluster.step, Cluster.setExecutor, heq] using hreached
  | process other provider spec fuel =>
      by_cases heq : other = node
      · subst heq
        obtain ⟨hsupplies, rfl⟩ := hreceives rfl
        have hkept : emitted.length ≤ (self.streams other).receiver.next + capacity := by
          have hle := hstarts.length_le
          have hfrom := h.from_skipped
          rw [List.length_drop] at hle
          omega
        have hpoll := pollNext_kept hsubscribed h.ended hkept
        simp only [Cluster.step]
        cases hnext : emitted[(self.streams other).receiver.next]? with
        | none =>
            rw [hnext] at hpoll
            rw [hpoll]
            refine h.emit hsubscribed [] ?_ fun _ hreached => hreached
            simp [Cluster.setStream, Agreement.emit]
        | some flashblock =>
            rw [hnext] at hpoll
            rw [hpoll]
            dsimp only
            cases hdone : processFlashblock X debugAssertions provider spec fuel
                (self.executors other) ⟨flashblock⟩ with
            | none => exact h
            | some done =>
                exact h.polled hsubscribed hstarts hnumbered hsound hnext rfl hsupplies hdone
      · obtain ⟨hstream, hexecutor⟩ := @step_elsewhere _ _ _ _ X debugAssertions node capacity self
          _ D linked other provider spec fuel heq
        refine h.emit hsubscribed [] hstream ?_
        rw [hexecutor]
        exact fun _ hreached => hreached

variable [DecidableEq ι] {D : Codecs FlashblockMetadata} {linked : ι → ι → Bool}
variable {events : List (P2p.Peers.Event ι)} {outputs : List (Output ι Tx)}

theorem sent_grows {more : List (P2p.Peers.Event ι)} {later : Cluster ι Tx}
    {outputs' : List (Output ι Tx)} (h : Followed D linked events outputs self)
    (hlater : Followed D linked (events ++ more) outputs' later) (node : ι) :
    (self.streams node).receiver.sent <+: (later.streams node).receiver.sent := by
  rw [(h.streams node).sent, (hlater.streams node).sent, exec_append, sentBy_append,
    flashblockTx_append]
  exact List.prefix_append _ _

omit [DecidableEq ι] in
theorem getElem_contiguous {payloads : List FlashblocksPayload}
    (hindex : ∀ payload ∈ payloads, payload.index.toNat ≤ maxFlashblockIndex) {i : Nat}
    (hi : i < (contiguous payloads).length) :
    (contiguous payloads)[i] ∈ payloads ∧ (contiguous payloads)[i].index.toNat = i := by
  have hslot : firstDelivered payloads i = (contiguous payloads)[i]? := by
    rw [← slot_range payloads hindex]
    exact slot_of_lt_filledPrefix hi
  rw [List.getElem?_eq_getElem hi] at hslot
  exact firstDelivered_index hslot

theorem length_contiguous_le (payloads : List FlashblocksPayload) :
    (contiguous payloads).length ≤ maxFlashblockIndex + 1 := by
  have hle := length_filledPrefix_le
    ((List.range (maxFlashblockIndex + 1)).map (firstDelivered payloads))
  rwa [List.length_map, List.length_range] at hle

/-- The run lemma: as long as the node emits the payload, its executor takes it. -/
theorem arriving_run (hD : D.Lawful) (hstart : Followed D linked events outputs self)
    (harriving : Arriving X chain chainSpec id base node skipped self)
    (hcapacity : payloads.length ≤ capacity) (hnumbered : Numbered id base payloads)
    (hsound : Sound X debugAssertions chain chainSpec base (payloads.map Flashblock.mk))
    (run : List (Agreement.Event ι Tx Db))
    (hreceives : ∀ event ∈ run, Receives chain chainSpec base node event) :
    let reached := exec (Cluster.step X debugAssertions capacity D linked) self run
    ∃ more, Followed D linked (events ++ more) (outputs ++ reached.2) reached.1 ∧
      ((reached.1.streams node).receiver.sent.drop skipped <+: payloads →
        Arriving X chain chainSpec id base node skipped reached.1) := by
  induction run using List.reverseRecOn with
  | nil => exact ⟨[], by simpa using hstart, fun _ => harriving⟩
  | append_singleton run event ih =>
      obtain ⟨more, hmore, hreached⟩ := ih fun other hmem =>
        hreceives other (List.mem_append_left _ hmem)
      obtain ⟨next, hnext⟩ := hmore.step hD event
      rw [List.append_assoc, List.append_assoc] at hnext
      rw [exec_concat]
      refine ⟨more ++ next, hnext, ?_⟩
      intro hstarts
      rw [← List.append_assoc] at hnext
      have hbefore := ((sent_grows hmore hnext node).drop skipped).trans hstarts
      have hsubscribed := hmore.streams node
      rw [hsubscribed.sent] at hbefore
      exact (hreached (hsubscribed.sent ▸ hbefore)).step hsubscribed hbefore hcapacity hnumbered
        hsound (hreceives event (List.mem_append_right _ List.mem_cons_self))

def Drained (stream : FlashblockStream) : Prop :=
  stream.ended = false ∧ stream.receiver.next = stream.receiver.sent.length

/-- One payload, with one content for each index, and what of it can reach a node. -/
structure Publication (D : Codecs FlashblockMetadata) (linked : ι → ι → Bool) (id : PayloadId)
    (base : ExecutionPayloadBaseV1) (node : ι) (calls : List (ι × FlashblocksPayload))
    (reaching : List FlashblocksPayload) : Prop where
  ofPayload : OfPayload D id (calls.map Prod.snd)
  family : Family (calls.map Prod.snd)
  reaching_iff : ∀ payload, payload ∈ reaching ↔ Sourced linked calls node payload
  first : ∃ first ∈ (contiguous reaching).head?, first.base = some base

omit [DecidableEq ι] in
theorem Publication.numbered {calls : List (ι × FlashblocksPayload)}
    {reaching : List FlashblocksPayload}
    (h : Publication D linked id base node calls reaching) :
    Numbered id base (contiguous reaching) := by
  have hlimits : ∀ payload ∈ reaching,
      payload.payloadId = id ∧ payload.index.toNat ≤ maxFlashblockIndex := by
    intro payload hpayload
    obtain ⟨hid, hwithin⟩ := h.ofPayload payload (sourced_mem ((h.reaching_iff payload).mp hpayload))
    exact ⟨hid, hwithin.index⟩
  have helement := fun i hi =>
    getElem_contiguous (fun payload hpayload => (hlimits payload hpayload).2) (i := i) hi
  constructor
  · intro payload hpayload
    obtain ⟨i, hi, rfl⟩ := List.getElem_of_mem hpayload
    exact (hlimits _ (helement i hi).1).1
  · exact fun i hi => (helement i hi).2
  · intro first hfirst
    obtain ⟨first', hfirst', hbase⟩ := h.first
    rw [Option.mem_unique hfirst hfirst']
    exact hbase

/-- A payload that is published on a network at rest is pre-confirmed by every node to which
links lead: when the network is at rest again and the node has read its stream, the node holds
the contiguous part of what was published and has executed it, whatever the order in which
flashblocks were published, queued, delivered and processed. -/
theorem arrives (hD : D.Lawful) (X : Crates Tx Db Core) (debugAssertions : Bool) (capacity : Nat)
    (hcapacity : maxFlashblockIndex < capacity) (linked : ι → ι → Bool) (chain : Chain Db)
    (chainSpec : OpChainSpec) (pendingBlocks : ι → Option (BuiltPayloadExecutedBlock Tx))
    (earlier later : List (Agreement.Event ι Tx Db)) (id : PayloadId)
    (base : ExecutionPayloadBaseV1) (node : ι) (reaching : List FlashblocksPayload) :
    let start := exec (Cluster.step X debugAssertions capacity D linked) (.new pendingBlocks) earlier
    let reached := exec (Cluster.step X debugAssertions capacity D linked) start.1 later
    AtRest start.1.net → Drained (start.1.streams node) →
      Opens id base (start.1.executors node).inner →
      (∀ call ∈ published start.2, call.2.payloadId ≠ id) →
      Publication D linked id base node (published reached.2) reaching →
      Sound X debugAssertions chain chainSpec base ((contiguous reaching).map Flashblock.mk) →
      (∀ event ∈ later, Receives chain chainSpec base node event) →
      AtRest reached.1.net → Drained (reached.1.streams node) →
        (reached.1.flashblocks node).toList = (contiguous reaching).map Flashblock.mk ∧
          Executed X chain chainSpec (reached.1.executors node) := by
  intro start reached hrest hdrained hopens hearlier hpublication hsound hreceives hquiet hread
  obtain ⟨before, hstart⟩ := @followed_run _ _ _ _ _ X debugAssertions capacity D hD linked
    pendingBlocks earlier
  have hskipped : Arriving X chain chainSpec id base node
      (start.1.streams node).receiver.sent.length start.1 := by
    refine ⟨hdrained.1, hdrained.2.ge, hdrained.2.le, ?_⟩
    rw [List.drop_eq_nil_of_le (List.length_take_le' _ _)]
    exact .unopened hopens
  obtain ⟨more, hmore, harriving⟩ := arriving_run hD hstart hskipped
    ((length_contiguous_le reaching).trans hcapacity) hpublication.numbered hsound later hreceives
  have hcalls : publishedNew more = published reached.2 := by
    have hall := hmore.calls
    rw [publishedNew_append, published_append, hstart.calls] at hall
    exact List.append_cancel_left hall
  have hemitted : (reached.1.streams node).receiver.sent =
      (start.1.streams node).receiver.sent ++ contiguous reaching := by
    rw [(hmore.streams node).sent, (hstart.streams node).sent, exec_append, sentBy_append,
      flashblockTx_append]
    congr 1
    have hnet := hmore.net
    rw [exec_append] at hnet
    obtain ⟨first, mesh, histories, hblank, hmesh, hspread⟩ := spread_run hD linked before more
      (hstart.net ▸ hrest) (hstart.calls ▸ hearlier) (hcalls ▸ hpublication.ofPayload)
      (hcalls ▸ hpublication.family)
    have hall := emitted_at_rest hmesh (hnet ▸ hquiet) hspread hblank
      (hcalls ▸ hpublication.ofPayload) (hcalls ▸ hpublication.family)
      (hcalls ▸ hpublication.reaching_iff)
    exact hall
  have hreached := (harriving (by rw [hemitted, List.drop_left])).reached
  rw [hread.2, List.take_length, hemitted, List.drop_left] at hreached
  generalize hlist : (contiguous reaching).map Flashblock.mk = flashblocks at hreached ⊢
  cases hreached with
  | unopened =>
      obtain ⟨first, hfirst, _⟩ := hpublication.first
      rw [List.map_eq_nil_iff.mp hlist] at hfirst
      cases hfirst
  | holding _ _ hexecuted => exact ⟨rfl, hexecuted⟩

def openedBase : ExecutionPayloadBaseV1 := { parentHash := 7, timestamp := 12 }

theorem sample_receives (event : Agreement.Event (Fin 2) SampleTx SampleDb)
    (h : event ∈ followed 0 1 ++ [.outbound 1 0]) :
    Receives sampleChain sampleChainSpec openedBase 1 event := by
  simp only [followed, List.cons_append, List.nil_append, List.mem_cons, List.not_mem_nil,
    or_false] at h
  rcases h with rfl | rfl | rfl | rfl | rfl | rfl | rfl
  · exact fun h => by cases h
  · trivial
  · trivial
  · trivial
  · trivial
  · exact fun _ => ⟨⟨sampleChain_serves, rfl⟩, rfl⟩
  · trivial

theorem arrives_followed :
    let reached := exec (Cluster.step sample false 128 sampleCodecs fun n m : Fin 2 => n ≠ m)
      (.new fun _ => none) (followed 0 1 ++ [.outbound 1 0])
    (reached.1.flashblocks 1).toList = (contiguous [(opens 1 12 []).flashblock]).map .mk ∧
      Executed sample sampleChain sampleChainSpec (reached.1.executors 1) := by
  have hpublished : published (exec (Cluster.step sample false 128 sampleCodecs
      fun n m : Fin 2 => n ≠ m) (.new fun _ => none) (followed 0 1 ++ [.outbound 1 0])).2 =
        [(0, (opens 1 12 []).flashblock)] := by
    decide +kernel
  have hcontiguous : contiguous [(opens 1 12 []).flashblock] = [(opens 1 12 []).flashblock] := by
    decide +kernel
  have hpublication : Publication sampleCodecs (fun n m : Fin 2 => n ≠ m) 1 openedBase 1
      [(0, (opens 1 12 []).flashblock)] [(opens 1 12 []).flashblock] := by
    refine ⟨by decide +kernel, by decide +kernel, ?_, ?_⟩
    · intro payload
      constructor
      · intro hmem
        rw [List.mem_singleton.mp hmem]
        exact ⟨_, List.mem_singleton_self _, rfl, .single rfl⟩
      · rintro ⟨call, hmem, rfl, _⟩
        rw [List.mem_singleton.mp hmem]
        exact List.mem_singleton_self _
    · rw [hcontiguous]
      exact ⟨_, rfl, rfl⟩
  have h := arrives sample_lawful sample false 128 (by decide) (fun n m : Fin 2 => n ≠ m)
    sampleChain sampleChainSpec (fun _ => none) [] (followed 0 1 ++ [.outbound 1 0]) 1 openedBase 1
    [(opens 1 12 []).flashblock]
  dsimp only [exec_nil] at h
  apply h
  · decide +kernel
  · exact ⟨rfl, rfl⟩
  · refine ⟨by decide, by decide, ?_⟩
    intro _ _ hlatest
    cases hlatest
  · intro call hcall
    cases hcall
  · rw [hpublished]
    exact hpublication
  · rw [hcontiguous]
    intro before flashblock after hsplit
    cases before with
    | nil =>
        cases hsplit
        exact ⟨_, rfl, nofun⟩
    | cons first before => simp at hsplit
  · exact sample_receives
  · decide +kernel
  · exact ⟨by decide +kernel, by decide +kernel⟩

end WorldChain.Executor.Arrival
