import WorldChain.Executor.Replay
import WorldChain.P2p.Lagging
import WorldChain.P2p.Provenance

/-! The nodes of a network with their executors: each one publishes what it has built
and processes what its own ordering state emits. -/
namespace WorldChain.Executor.Agreement
open Relation Library.Broadcast Library.Overlay Library.Runs Wire.Primitives Wire.Message
open Wire.Alloy Deps.Reth Deps.Calls Deps.Concrete
open P2p.Publish P2p.Peers P2p.Honest P2p.Lagging P2p.Provenance
open Process Announced Replay

variable {ι Tx Db Core : Type}

structure Cluster (ι Tx : Type) where
  net : Network ι := {}
  executors : ι → FlashblocksStateExecutor Tx
  /-- The streams that `launch` has subscribed, before anything is published. -/
  streams : ι → FlashblockStream := fun _ => { current := [] }

def Cluster.new (pendingBlocks : ι → Option (BuiltPayloadExecutedBlock Tx)) : Cluster ι Tx where
  executors node := .new (pendingBlocks node)

inductive Event (ι Tx Db : Type)
  | publishBuiltPayload (node : ι) (now : Int) (payload : FlashblocksPayload)
      (builtPayload : OpBuiltPayload Tx) (id_eq : builtPayload.id = payload.payloadId)
  | registerPayloadEvents (node : ι)
  | outbound (node peer : ι)
  | inbound (node peer : ι) (now : Int)
  | deliver (sender receiver : ι)
  /-- One turn of the loop that `launch` spawns. -/
  | process (node : ι) (provider : Provider Db) (chainSpec : OpChainSpec) (fuel : Nat)

abbrev Output (ι Tx : Type) := ι × Process.Event Tx

variable [DecidableEq ι]

def Cluster.setExecutor (self : Cluster ι Tx) (node : ι) (executor : FlashblocksStateExecutor Tx) :
    Cluster ι Tx :=
  { self with executors := fun n => if n = node then executor else self.executors n }

def Cluster.setStream (self : Cluster ι Tx) (node : ι) (stream : FlashblockStream) :
    Cluster ι Tx :=
  { self with streams := fun n => if n = node then stream else self.streams n }

def emit (stream : FlashblockStream) (flashblocks : List FlashblocksPayload) : FlashblockStream :=
  { stream with receiver := flashblocks.foldl Receiver.send stream.receiver }

/-- What the nodes emit meanwhile goes to their streams. -/
def Cluster.exchange (D : Codecs FlashblockMetadata) (linked : ι → ι → Bool) (self : Cluster ι Tx)
    (events : List (P2p.Peers.Event ι)) : Cluster ι Tx :=
  let reached := exec (Network.step D linked) self.net events
  { self with
    net := reached.1
    streams := fun n => emit (self.streams n) (flashblockTx (sentBy n reached.2)) }

def publishNews (node : ι) (now : Int) (events : List (Process.Event Tx)) :
    List (P2p.Peers.Event ι) :=
  events.filterMap fun
    | .publishNew payload => some (.publishNew node now payload)
    | .build _ _ | .push _ | .builtPayload _ => none

/-- A call that never returns counts as not made. -/
def Cluster.step (X : Crates Tx Db Core) (debugAssertions : Bool) (capacity : Nat)
    (D : Codecs FlashblockMetadata) (linked : ι → ι → Bool) (self : Cluster ι Tx) :
    Event ι Tx Db → Cluster ι Tx × List (Output ι Tx)
  | .publishBuiltPayload node now payload builtPayload _ =>
      let done := publishBuiltPayload (self.executors node) payload builtPayload
      ((self.setExecutor node done.executor).exchange D linked (publishNews node now done.events),
        done.events.map fun event => (node, event))
  | .registerPayloadEvents node =>
      (self.setExecutor node (registerPayloadEvents (self.executors node)), [])
  | .outbound node peer => (self.exchange D linked [.outbound node peer], [])
  | .inbound node peer now => (self.exchange D linked [.inbound node peer now], [])
  | .deliver sender receiver => (self.exchange D linked [.deliver sender receiver], [])
  | .process node provider chainSpec fuel =>
      let polled := (self.streams node).pollNext capacity
      match polled.2 with
      | .item flashblock =>
          match processFlashblock X debugAssertions provider chainSpec fuel (self.executors node)
              ⟨flashblock⟩ with
          | none => (self, [])
          | some done =>
              ((self.setStream node polled.1).setExecutor node done.executor,
                done.events.map fun event => (node, event))
      | .pending | .ended => (self.setStream node polled.1, [])

def published (outputs : List (Output ι Tx)) : List (ι × FlashblocksPayload) :=
  outputs.filterMap fun
    | (node, .publishNew payload) => some (node, payload)
    | (_, .build _ _) | (_, .push _) | (_, .builtPayload _) => none

def Cluster.flashblocks (self : Cluster ι Tx) (node : ι) : Flashblocks :=
  (self.executors node).inner.flashblocks

variable {X : Crates Tx Db Core} {debugAssertions : Bool} {capacity : Nat}
variable {D : Codecs FlashblockMetadata} {linked : ι → ι → Bool}

structure Subscribed (stream : FlashblockStream) (emitted : List FlashblocksPayload) : Prop where
  current : stream.current = []
  opened : stream.receiver.closed = false
  sent : stream.receiver.sent = emitted

omit [DecidableEq ι] in
theorem send_all {receiver : Receiver FlashblocksPayload} (hopened : receiver.closed = false)
    (flashblocks : List FlashblocksPayload) :
    flashblocks.foldl Receiver.send receiver =
      { receiver with sent := receiver.sent ++ flashblocks } := by
  induction flashblocks generalizing receiver with
  | nil => simp
  | cons flashblock flashblocks ih =>
      have hfirst : receiver.send flashblock =
          { receiver with sent := receiver.sent ++ [flashblock] } := by
        simp [Receiver.send, hopened]
      have hrest := @ih { receiver with sent := receiver.sent ++ [flashblock] } hopened
      rw [List.foldl_cons, hfirst, hrest, List.append_assoc]
      rfl

theorem Subscribed.emit {stream : FlashblockStream} {emitted : List FlashblocksPayload}
    (h : Subscribed stream emitted) (more : List FlashblocksPayload) :
    Subscribed (emit stream more) (emitted ++ more) := by
  unfold Agreement.emit
  rw [send_all h.opened, h.sent]
  exact ⟨h.current, h.opened, rfl⟩

theorem Subscribed.pollNext {stream : FlashblockStream} {emitted : List FlashblocksPayload}
    (h : Subscribed stream emitted) (capacity : Nat) :
    Subscribed (stream.pollNext capacity).1 emitted ∧
      ∀ flashblock, (stream.pollNext capacity).2 = .item flashblock → flashblock ∈ emitted := by
  have hsent := h.sent
  have hopened := h.opened
  unfold FlashblockStream.pollNext Receiver.recv
  rw [h.current]
  dsimp only
  cases hended : stream.ended with
  | true => exact ⟨h, nofun⟩
  | false =>
      by_cases hlagged : stream.receiver.next < stream.receiver.oldest capacity
      · simp only [hlagged, ↓reduceIte, Bool.false_eq_true]
        exact ⟨⟨rfl, hopened, hsent⟩, nofun⟩
      · cases hnext : stream.receiver.sent[stream.receiver.next]? with
        | none =>
            simp only [hlagged, hopened, ↓reduceIte, Bool.false_eq_true]
            exact ⟨⟨rfl, hopened, hsent⟩, nofun⟩
        | some flashblock =>
            simp only [hlagged, ↓reduceIte, Bool.false_eq_true]
            refine ⟨⟨rfl, hopened, hsent⟩, ?_⟩
            intro other hitem
            cases hitem
            rw [← hsent]
            exact List.mem_of_getElem? hnext

/-- The network of the cluster has seen these events, and whatever an executor has
collected since its start was published at a node from which links lead to it. -/
structure Followed (D : Codecs FlashblockMetadata) (linked : ι → ι → Bool)
    (events : List (P2p.Peers.Event ι)) (outputs : List (Output ι Tx)) (cluster : Cluster ι Tx) :
    Prop where
  net : cluster.net = (exec (Network.step D linked) {} events).1
  calls : publishedNew events = published outputs
  streams : ∀ n, Subscribed (cluster.streams n)
    (flashblockTx (sentBy n (exec (Network.step D linked) {} events).2))
  held : ∀ n, ∀ fb ∈ (cluster.flashblocks n).toList,
    fb ∈ Flashblocks.default.toList ∨ Sourced linked (published outputs) n fb.flashblock

omit [DecidableEq ι] in
@[simp] theorem published_append (left right : List (Output ι Tx)) :
    published (left ++ right) = published left ++ published right :=
  List.filterMap_append

omit [DecidableEq ι] in
@[simp] theorem publishedNew_append (left right : List (P2p.Peers.Event ι)) :
    publishedNew (left ++ right) = publishedNew left ++ publishedNew right :=
  List.filterMap_append

theorem followed_new (pendingBlocks : ι → Option (BuiltPayloadExecutedBlock Tx)) :
    Followed D linked [] [] (Cluster.new pendingBlocks) where
  net := rfl
  calls := rfl
  streams _ := ⟨rfl, rfl, rfl⟩
  held _ _ hmem := .inl hmem

variable {events : List (P2p.Peers.Event ι)} {outputs : List (Output ι Tx)} {self : Cluster ι Tx}

theorem Followed.exchange (h : Followed D linked events outputs self)
    {next : List (P2p.Peers.Event ι)} {more : List (Output ι Tx)}
    (hcalls : publishedNew next = published more) :
    Followed D linked (events ++ next) (outputs ++ more) (self.exchange D linked next) where
  net := by
    rw [exec_append, ← h.net]
    rfl
  calls := by rw [publishedNew_append, published_append, h.calls, hcalls]
  streams n := by
    rw [exec_append, sentBy_append, flashblockTx_append, ← h.net]
    exact (h.streams n).emit _
  held n fb hmem := by
    rw [published_append]
    exact (h.held n fb hmem).imp_right (·.mono _)

theorem Followed.quiet (h : Followed D linked events outputs self) {more : List (Output ι Tx)}
    (hquiet : published more = []) : Followed D linked events (outputs ++ more) self where
  net := h.net
  streams := h.streams
  calls := by rw [published_append, hquiet, List.append_nil, h.calls]
  held := by
    rw [published_append, hquiet, List.append_nil]
    exact h.held

theorem Followed.setExecutor (h : Followed D linked events outputs self) (node : ι)
    {executor : FlashblocksStateExecutor Tx}
    (hheld : ∀ fb ∈ executor.inner.flashblocks.toList,
      fb ∈ (self.flashblocks node).toList ∨ Sourced linked (published outputs) node fb.flashblock) :
    Followed D linked events outputs (self.setExecutor node executor) where
  net := h.net
  calls := h.calls
  streams := h.streams
  held n fb hmem := by
    simp only [Cluster.flashblocks, Cluster.setExecutor] at hmem
    split at hmem
    · rename_i hn
      rw [hn]
      rcases hheld fb hmem with hold | hnew
      · exact h.held node fb hold
      · exact .inr hnew
    · exact h.held n fb hmem

theorem Followed.setStream (h : Followed D linked events outputs self) (node : ι)
    (capacity : Nat) :
    Followed D linked events outputs
      (self.setStream node ((self.streams node).pollNext capacity).1) where
  net := h.net
  calls := h.calls
  held := h.held
  streams n := by
    unfold Cluster.setStream
    dsimp only
    split
    · rename_i hn
      rw [hn]
      exact ((h.streams node).pollNext capacity).1
    · exact h.streams n

theorem Followed.item (hD : D.Lawful) (h : Followed D linked events outputs self) {node : ι}
    {flashblock : FlashblocksPayload}
    (hitem : ((self.streams node).pollNext capacity).2 = .item flashblock) :
    Sourced linked (published outputs) node flashblock := by
  obtain ⟨_, htraced⟩ := traced_run hD linked events
  rw [← h.calls]
  exact htraced.emitted node flashblock (((h.streams node).pollNext capacity).2 flashblock hitem)

theorem collected_of_perform (self : FlashblocksStateExecutor Tx) (call : Coupling.Call Tx Db)
    {fb : Flashblock}
    (hmem : fb ∈ (perform X debugAssertions self call).1.inner.flashblocks.toList) :
    fb ∈ self.inner.flashblocks.toList ∨ delivered call = some fb := by
  have heffect := @perform_effect _ _ _ X debugAssertions self call
  generalize (perform X debugAssertions self call).1.inner = after at heffect hmem
  cases heffect with
  | quiet _ hflashblocks =>
      rw [hflashblocks] at hmem
      exact .inl hmem
  | pushed flashblock isNew next payload hdelivered hpush =>
      obtain ⟨_, _, _, htoList⟩ := push_ok hpush
      rw [htoList] at hmem
      split at hmem
      · rw [List.mem_singleton.mp hmem]
        exact .inr hdelivered
      · rcases List.mem_append.mp hmem with hold | hnew
        · exact .inl hold
        · rw [List.mem_singleton.mp hnew]
          exact .inr hdelivered

omit [DecidableEq ι] in
theorem published_process {provider : Provider Db} {chainSpec : OpChainSpec} {fuel : Nat}
    {executor : FlashblocksStateExecutor Tx} {flashblock : Flashblock} {done : Returned Tx}
    (hdone : processFlashblock X debugAssertions provider chainSpec fuel executor flashblock =
      some done) (node : ι) : published (done.events.map fun event => (node, event)) = [] := by
  cases processed hdone with
  | known => rfl
  | refused => rfl
  | failed isNew e events hunknown hisNew hfailed hevents =>
      rw [published, List.filterMap_map, List.filterMap_eq_nil_iff]
      intro event hmem
      rw [hevents event hmem]
      rfl
  | installed isNew payload flashblocks =>
      dsimp only
      split <;> rfl

theorem Followed.step (hD : D.Lawful) (h : Followed D linked events outputs self)
    (event : Event ι Tx Db) :
    ∃ next, Followed D linked (events ++ next)
      (outputs ++ (self.step X debugAssertions capacity D linked event).2)
      (self.step X debugAssertions capacity D linked event).1 := by
  cases event with
  | registerPayloadEvents node =>
      refine ⟨[], ?_⟩
      simp only [Cluster.step, List.append_nil]
      exact h.setExecutor node fun _ hmem => .inl hmem
  | outbound node peer => exact ⟨_, h.exchange rfl⟩
  | inbound node peer now => exact ⟨_, h.exchange rfl⟩
  | deliver sender receiver => exact ⟨_, h.exchange rfl⟩
  | publishBuiltPayload node now payload builtPayload id_eq =>
      rcases publishBuiltPayload_cases (self.executors node) payload builtPayload with
        ⟨e, heq⟩ | ⟨isNew, next, hpush, heq⟩
      · refine ⟨[], ?_⟩
        simp only [Cluster.step, heq]
        exact (h.setExecutor node fun _ hmem => .inl hmem).exchange rfl
      · refine ⟨[.publishNew node now payload], ?_⟩
        simp only [Cluster.step, heq]
        have hnext : Followed D linked (events ++ [.publishNew node now payload])
            (outputs ++ [(node, .push ⟨payload⟩), (node, .publishNew payload)])
            (self.exchange D linked [.publishNew node now payload]) := h.exchange rfl
        apply hnext.setExecutor node
        intro fb hmem
        obtain ⟨_, _, _, htoList⟩ := push_ok hpush
        rw [htoList] at hmem
        have hcall : (node, payload) ∈
            published (outputs ++ [(node, .push ⟨payload⟩), (node, .publishNew payload)]) := by
          rw [published_append]
          exact List.mem_append_right _ List.mem_cons_self
        have hsourced : fb = ⟨payload⟩ → Sourced linked
            (published (outputs ++ [(node, .push ⟨payload⟩), (node, .publishNew payload)])) node
            fb.flashblock := by
          rintro rfl
          exact ⟨_, hcall, rfl, .refl⟩
        split at hmem
        · exact .inr (hsourced (List.mem_singleton.mp hmem))
        · rcases List.mem_append.mp hmem with hold | hnew
          · exact .inl hold
          · exact .inr (hsourced (List.mem_singleton.mp hnew))
  | process node provider chainSpec fuel =>
      simp only [Cluster.step]
      cases hitem : ((self.streams node).pollNext capacity).2 with
      | pending => exact ⟨[], by simpa using h.setStream node capacity⟩
      | ended => exact ⟨[], by simpa using h.setStream node capacity⟩
      | item flashblock =>
          cases hdone : processFlashblock X debugAssertions provider chainSpec fuel
              (self.executors node) ⟨flashblock⟩ with
          | none => exact ⟨[], by simpa [hdone] using h⟩
          | some done =>
              have hperform : (perform X debugAssertions (self.executors node)
                  (.processFlashblock provider chainSpec fuel ⟨flashblock⟩)).1 = done.executor := by
                simp only [perform, hdone]
              have hquiet := published_process hdone node
              have hpolled := (h.setStream node capacity).quiet hquiet
              refine ⟨[], ?_⟩
              rw [List.append_nil]
              simp only [hdone]
              apply hpolled.setExecutor node
              intro fb hmem
              rw [← hperform] at hmem
              rcases collected_of_perform _ _ hmem with hold | hnew
              · exact .inl hold
              · cases hnew
                rw [published_append, hquiet, List.append_nil]
                exact .inr (h.item hD hitem)

theorem Followed.continued (hD : D.Lawful) (h : Followed D linked events outputs self)
    (run : List (Event ι Tx Db)) :
    ∃ more, Followed D linked (events ++ more)
      (outputs ++ (exec (Cluster.step X debugAssertions capacity D linked) self run).2)
      (exec (Cluster.step X debugAssertions capacity D linked) self run).1 := by
  induction run using List.reverseRecOn with
  | nil => exact ⟨[], by simpa using h⟩
  | append_singleton run event ih =>
      obtain ⟨more, hmore⟩ := ih
      obtain ⟨next, hnext⟩ := hmore.step hD event
      rw [exec_concat, ← List.append_assoc]
      exact ⟨more ++ next, List.append_assoc _ _ _ ▸ hnext⟩

theorem followed_run (hD : D.Lawful) (linked : ι → ι → Bool)
    (pendingBlocks : ι → Option (BuiltPayloadExecutedBlock Tx)) (run : List (Event ι Tx Db)) :
    ∃ events, Followed D linked events
      (exec (Cluster.step X debugAssertions capacity D linked) (.new pendingBlocks) run).2
      (exec (Cluster.step X debugAssertions capacity D linked) (.new pendingBlocks) run).1 := by
  obtain ⟨events, h⟩ := (followed_new pendingBlocks).continued hD run
  exact ⟨events, h⟩

def OneContent (calls : List (ι × FlashblocksPayload)) : Prop :=
  ∀ a ∈ calls, ∀ b ∈ calls, payloadKey a.2 = payloadKey b.2 → a.2 = b.2

/-- A collection that does not stand for payload 0 holds what has been published. -/
theorem Followed.collected (h : Followed D linked events outputs self) {node : ι}
    (hzero : (self.flashblocks node).payloadId ≠ 0) {i : Nat}
    (hi : i < (self.flashblocks node).toList.length) :
    ∃ call ∈ published outputs, call.2 = ((self.flashblocks node).toList[i]).flashblock ∧
      payloadKey call.2 = ((self.flashblocks node).payloadId, i) := by
  have hguaranteed := (self.flashblocks node).guaranteed
  have hmem := List.getElem_mem hi
  have hid := hguaranteed.payloadId _ (self.flashblocks node).first_mem_head? _ hmem
  rcases h.held node _ hmem with hdefault | ⟨call, hcall, heq, _⟩
  · rw [List.mem_singleton.mp hdefault] at hid
    exact (hzero hid.symm).elim
  · refine ⟨call, hcall, heq, ?_⟩
    rw [heq]
    exact Prod.ext hid (hguaranteed.index i hi)

omit [DecidableEq ι] in
theorem prefix_or_prefix {α : Type} {left right : List α}
    (h : ∀ i (hleft : i < left.length) (hright : i < right.length), left[i] = right[i]) :
    left <+: right ∨ right <+: left := by
  rcases Nat.le_total left.length right.length with hle | hle
  · left
    rw [List.prefix_iff_eq_take]
    apply List.ext_getElem (by simp [hle])
    intro i hi hi'
    rw [List.getElem_take]
    exact h i hi (by omega)
  · right
    rw [List.prefix_iff_eq_take]
    apply List.ext_getElem (by simp [hle])
    intro i hi hi'
    rw [List.getElem_take]
    exact (h i (by omega) hi).symm

theorem Followed.agree (h : Followed D linked events outputs self)
    (hone : OneContent (published outputs)) {n m : ι}
    (hid : (self.flashblocks n).payloadId = (self.flashblocks m).payloadId)
    (hzero : (self.flashblocks n).payloadId ≠ 0) :
    (self.flashblocks n).toList <+: (self.flashblocks m).toList ∨
      (self.flashblocks m).toList <+: (self.flashblocks n).toList := by
  apply prefix_or_prefix
  intro i hn hm
  obtain ⟨a, ha, hleft, hkey⟩ := h.collected hzero hn
  obtain ⟨b, hb, hright, hkey'⟩ := h.collected (hid ▸ hzero) hm
  have hsame := hone a ha b hb (by rw [hkey, hkey', hid])
  rw [hleft, hright] at hsame
  exact congrArg Flashblock.mk hsame

/-- Two nodes never hold different flashblocks: whatever happens in the network, of two
collections of one payload one is a prefix of the other. -/
theorem agreement (hD : D.Lawful) (X : Crates Tx Db Core) (debugAssertions : Bool)
    (capacity : Nat) (linked : ι → ι → Bool)
    (pendingBlocks : ι → Option (BuiltPayloadExecutedBlock Tx)) (run : List (Event ι Tx Db)) :
    let reached := exec (Cluster.step X debugAssertions capacity D linked) (.new pendingBlocks) run
    OneContent (published reached.2) → ∀ n m,
      (reached.1.flashblocks n).payloadId = (reached.1.flashblocks m).payloadId →
      (reached.1.flashblocks n).payloadId ≠ 0 →
        (reached.1.flashblocks n).toList <+: (reached.1.flashblocks m).toList ∨
          (reached.1.flashblocks m).toList <+: (reached.1.flashblocks n).toList := by
  intro reached hone n m hid hzero
  obtain ⟨events, h⟩ := @followed_run _ _ _ _ _ X debugAssertions capacity D hD linked pendingBlocks
    run
  exact h.agree hone hid hzero

theorem samplePayload_id : (samplePayload blank []).id = (opens 1 12 []).flashblock.payloadId := rfl

def followed (publisher node : ι) : List (Event ι SampleTx SampleDb) :=
  [.publishBuiltPayload publisher 20 (opens 1 12 []).flashblock (samplePayload blank [])
      samplePayload_id,
    .outbound publisher node, .deliver publisher node, .outbound node publisher,
    .inbound node publisher 21, .process node sampleProvider sampleChainSpec 1]

theorem agreement_followed :
    let reached := exec (Cluster.step sample false 100 sampleCodecs fun n m : Fin 2 => n ≠ m)
      (.new fun _ => none) (followed 0 1)
    (reached.1.flashblocks 0).payloadId = 1 ∧ (reached.1.flashblocks 1).payloadId = 1 ∧
      ((reached.1.flashblocks 0).toList <+: (reached.1.flashblocks 1).toList ∨
        (reached.1.flashblocks 1).toList <+: (reached.1.flashblocks 0).toList) := by
  refine ⟨by decide +kernel, by decide +kernel, ?_⟩
  apply agreement sample_lawful sample false 100 (fun n m : Fin 2 => n ≠ m) (fun _ => none)
    (followed 0 1)
  · unfold OneContent
    decide +kernel
  · decide +kernel
  · decide +kernel

end WorldChain.Executor.Agreement
