import WorldChain.Executor.Announced
import WorldChain.Library.Runs

/-! The latest payload and the collection of flashblocks over whole runs of the
executor, from `new` on and by any order of calls. -/
namespace WorldChain.Executor.Coupling
open Library.Overlay Library.Runs Wire.Primitives Deps.Reth Deps.Calls Deps.Concrete
open Process Announced

/-- The calls that change the executor. A published payload has the id of its
flashblock, since `PublishFlashblock::step` takes both from one block. -/
inductive Call (Tx Db : Type)
  | publishBuiltPayload (payload : FlashblocksPayload) (builtPayload : OpBuiltPayload Tx)
      (id_eq : builtPayload.id = payload.payloadId)
  | registerPayloadEvents
  | processFlashblock (provider : Provider Db) (chainSpec : OpChainSpec) (fuel : Nat)
      (flashblock : Flashblock)

variable {Tx Db Core : Type}

/-- A call that never returns lets no other one in; it counts as not made. -/
def step (X : Crates Tx Db Core) (debugAssertions : Bool) (self : FlashblocksStateExecutor Tx) :
    Call Tx Db → FlashblocksStateExecutor Tx × List (Event Tx)
  | .publishBuiltPayload payload builtPayload _ =>
      let done := publishBuiltPayload self payload builtPayload
      (done.executor, done.events)
  | .registerPayloadEvents => (registerPayloadEvents self, [])
  | .processFlashblock provider chainSpec fuel flashblock =>
      match processFlashblock X debugAssertions provider chainSpec fuel self flashblock with
      | none => (self, [])
      | some done => (done.executor, done.events)

def Pushed (events : List (Event Tx)) : Prop := ∃ flashblock, .push flashblock ∈ events

/-- The latest payload is that of the last flashblock in the collection. -/
def Coupled (inner : FlashblocksStateExecutorInner Tx) : Prop :=
  ∃ payload index, inner.latestPayload = some (payload, index) ∧
    payload.id = inner.flashblocks.payloadId ∧ index = inner.flashblocks.last.flashblock.index

def Precedes (latestPayload : Option (OpBuiltPayload Tx × UInt64)) (flashblock : Flashblock) : Prop :=
  ∃ payload index, latestPayload = some (payload, index) ∧ payload.id = flashblock.payloadId ∧
    index.toNat + 1 = flashblock.flashblock.index.toNat

def BuiltInOrder (events : List (Event Tx)) : Prop :=
  ∀ flashblock latestPayload, .build flashblock latestPayload ∈ events →
    flashblock.flashblock.index ≠ 0 → Precedes latestPayload flashblock

/-- What a run must not do: open a new payload and fail on the way, or continue
the default collection before anything has been pushed. -/
def Undisturbed (X : Crates Tx Db Core) (debugAssertions : Bool)
    (reached : FlashblocksStateExecutor Tx × List (Event Tx)) : Call Tx Db → Prop
  | .publishBuiltPayload _ _ _ | .registerPayloadEvents => True
  | .processFlashblock provider chainSpec fuel flashblock =>
      (Pushed reached.2 → reached.1.inner.flashblocks.isNewPayload flashblock = .ok true →
        (processFlashblock X debugAssertions provider chainSpec fuel reached.1 flashblock).isSome →
        ∃ payload,
          Builds X provider chainSpec fuel (opened reached.1 true) true flashblock payload ∧
            (debugAssertions → X.blockHash payload.block = flashblock.diff.blockHash)) ∧
      (¬Pushed reached.2 → reached.1.inner.flashblocks.isNewPayload flashblock ≠ .ok false)

variable {X : Crates Tx Db Core} {debugAssertions : Bool}

theorem pushed_append (events more : List (Event Tx)) :
    Pushed (events ++ more) ↔ Pushed events ∨ Pushed more := by
  simp only [Pushed, List.mem_append, exists_or]

theorem builtInOrder_append {events more : List (Event Tx)} (h : BuiltInOrder events)
    (hmore : BuiltInOrder more) : BuiltInOrder (events ++ more) := by
  intro flashblock latestPayload hmem
  rcases List.mem_append.mp hmem with hold | hnew
  · exact h flashblock latestPayload hold
  · exact hmore flashblock latestPayload hnew

theorem precedes_of_coupled {inner : FlashblocksStateExecutorInner Tx} {flashblock : Flashblock}
    (h : Coupled inner) (hnext : inner.flashblocks.isNewPayload flashblock = .ok false) :
    Precedes inner.latestPayload flashblock := by
  obtain ⟨payload, index, hlatest, hid, hindex⟩ := h
  obtain ⟨hsame, hlength⟩ := isNewPayload_false hnext
  have hpos := List.length_pos_iff.mpr inner.flashblocks.guaranteed.nonempty
  have hlast := inner.flashblocks.guaranteed.index (inner.flashblocks.toList.length - 1) (by omega)
  rw [List.getElem_length_sub_one_eq_getLast] at hlast
  refine ⟨payload, index, hlatest, hid.trans hsame.symm, ?_⟩
  rw [hindex, Flashblocks.last, hlast, hlength]
  omega

theorem coupled_of_push {flashblocks next : Flashblocks} {flashblock : Flashblock} {isNew : Bool}
    {payload : OpBuiltPayload Tx} {payloadEvents : Bool}
    (hpush : flashblocks.push flashblock = .ok (isNew, next))
    (hid : payload.id = flashblock.payloadId) :
    Coupled ⟨next, some (payload, flashblock.flashblock.index), payloadEvents⟩ := by
  obtain ⟨_, hlast, hpayloadId, _⟩ := push_ok hpush
  exact ⟨payload, _, rfl, hid.trans hpayloadId.symm, by rw [hlast]⟩

theorem builds_in_order {reached : FlashblocksStateExecutor Tx × List (Event Tx)}
    {flashblock : Flashblock} {isNew : Bool} (hcoupled : Pushed reached.2 → Coupled reached.1.inner)
    (hisNew : reached.1.inner.flashblocks.isNewPayload flashblock = .ok isNew)
    (hfirst : ¬Pushed reached.2 →
      reached.1.inner.flashblocks.isNewPayload flashblock ≠ .ok false)
    (hindex : flashblock.flashblock.index ≠ 0) :
    Precedes (opened reached.1 isNew).inner.latestPayload flashblock := by
  cases isNew with
  | true => exact (hindex (isNewPayload_true hisNew).2.1).elim
  | false =>
      by_cases hpushed : Pushed reached.2
      · exact precedes_of_coupled (hcoupled hpushed) hisNew
      · exact (hfirst hpushed hisNew).elim

def Keeps (reached after : FlashblocksStateExecutor Tx × List (Event Tx)) : Prop :=
  (Pushed reached.2 ∨ Pushed after.2 → Coupled after.1.inner) ∧ BuiltInOrder after.2

theorem keeps_quiet {reached : FlashblocksStateExecutor Tx × List (Event Tx)}
    {self : FlashblocksStateExecutor Tx} (h : Pushed reached.2 → Coupled self.inner) :
    Keeps reached (self, []) := by
  constructor
  · rintro (hpushed | ⟨_, hmem⟩)
    · exact h hpushed
    · cases hmem
  · intro _ _ hmem
    cases hmem

theorem keeps_publish {reached : FlashblocksStateExecutor Tx × List (Event Tx)}
    (hcoupled : Pushed reached.2 → Coupled reached.1.inner) {payload : FlashblocksPayload}
    {builtPayload : OpBuiltPayload Tx} (id_eq : builtPayload.id = payload.payloadId) :
    Keeps reached ((publishBuiltPayload reached.1 payload builtPayload).executor,
      (publishBuiltPayload reached.1 payload builtPayload).events) := by
  cases publishBuiltPayload_cases reached.1 payload builtPayload with
  | inl hrefused =>
      obtain ⟨e, heq⟩ := hrefused
      rw [heq]
      exact keeps_quiet hcoupled
  | inr hpublished =>
      obtain ⟨isNew, flashblocks, hpush, heq⟩ := hpublished
      rw [heq]
      constructor
      · intro _
        exact coupled_of_push hpush id_eq
      · intro flashblock latestPayload hmem
        simp at hmem

theorem keeps_process {provider : Provider Db} {chainSpec : OpChainSpec} {fuel : Nat}
    {flashblock : Flashblock} {reached : FlashblocksStateExecutor Tx × List (Event Tx)}
    {done : Returned Tx} (hcoupled : Pushed reached.2 → Coupled reached.1.inner)
    (hcond : Undisturbed X debugAssertions reached
      (.processFlashblock provider chainSpec fuel flashblock))
    (hdone : processFlashblock X debugAssertions provider chainSpec fuel reached.1 flashblock =
      some done) :
    Keeps reached (done.executor, done.events) := by
  obtain ⟨hopens, hfirst⟩ := hcond
  cases processed hdone with
  | known payload hknown => exact keeps_quiet hcoupled
  | refused e hunknown hrefused => exact keeps_quiet hcoupled
  | failed isNew e events hunknown hisNew hfailed hevents =>
      constructor
      · have hnone : ¬Pushed events := by
          rintro ⟨pushed, hmem⟩
          cases hevents _ hmem
        intro h
        have hpushed := h.resolve_right hnone
        cases isNew with
        | true =>
            -- the cleared payload is the disturbance that the condition excludes
            have hreturns := Option.isSome_iff_exists.mpr ⟨_, hdone⟩
            obtain ⟨payload, hbuilds, hassertion⟩ := hopens hpushed hisNew hreturns
            obtain ⟨hdebug, hne⟩ := hfailed payload hbuilds
            exact (hne (hassertion hdebug)).elim
        | false => exact hcoupled hpushed
      · intro built latestPayload hmem hindex
        cases hevents _ hmem
        exact builds_in_order hcoupled hisNew hfirst hindex
  | installed isNew payload next hunknown hisNew hbuilds hassertion hpush =>
      constructor
      · intro _
        exact coupled_of_push hpush (builds_id hbuilds)
      · intro built latestPayload hmem hindex
        cases List.mem_cons.mp hmem with
        | inl heq =>
            cases heq
            exact builds_in_order hcoupled hisNew hfirst hindex
        | inr hrest =>
            split at hrest <;> simp at hrest

theorem keeps_step {reached : FlashblocksStateExecutor Tx × List (Event Tx)} {call : Call Tx Db}
    (hcoupled : Pushed reached.2 → Coupled reached.1.inner)
    (hcond : Undisturbed X debugAssertions reached call) :
    Keeps reached (step X debugAssertions reached.1 call) := by
  cases call with
  | publishBuiltPayload payload builtPayload id_eq => exact keeps_publish hcoupled id_eq
  | registerPayloadEvents => exact keeps_quiet hcoupled
  | processFlashblock provider chainSpec fuel flashblock =>
      cases hdone : processFlashblock X debugAssertions provider chainSpec fuel reached.1 flashblock
        with
      | none =>
          simp only [step, hdone]
          exact keeps_quiet hcoupled
      | some done =>
          simp only [step, hdone]
          exact keeps_process hcoupled hcond hdone

theorem step_latest {self : FlashblocksStateExecutor Tx} {call : Call Tx Db}
    {latest : OpBuiltPayload Tx × UInt64}
    (h : (step X debugAssertions self call).1.inner.latestPayload = some latest) :
    self.inner.latestPayload = some latest ∨
      (∃ payload id_eq, call = .publishBuiltPayload payload latest.1 id_eq) ∨
      ∃ provider chainSpec fuel flashblock,
        FreshlyBuilt X provider chainSpec fuel self flashblock latest.1 := by
  cases call with
  | registerPayloadEvents => exact .inl h
  | publishBuiltPayload payload builtPayload id_eq =>
      simp only [step] at h
      cases publishBuiltPayload_cases self payload builtPayload with
      | inl hrefused =>
          obtain ⟨e, heq⟩ := hrefused
          rw [heq] at h
          exact .inl h
      | inr hpublished =>
          obtain ⟨_, _, _, heq⟩ := hpublished
          rw [heq] at h
          cases h
          exact .inr (.inl ⟨payload, id_eq, rfl⟩)
  | processFlashblock provider chainSpec fuel flashblock =>
      cases hdone : processFlashblock X debugAssertions provider chainSpec fuel self flashblock with
      | none =>
          simp only [step, hdone] at h
          exact .inl h
      | some done =>
          simp only [step, hdone] at h
          cases processed hdone with
          | known => exact .inl h
          | refused => exact .inl h
          | failed => exact .inl (opened_latestPayload h)
          | installed isNew payload next hunknown hisNew hbuilds =>
              cases h
              exact .inr (.inr ⟨provider, chainSpec, fuel, flashblock, hunknown, isNew, hisNew,
                hbuilds⟩)

/-- In every undisturbed run the two pieces of state stay coupled once a
flashblock has been pushed, and every build has run on the preceding ones. -/
theorem coupled_along_run {pendingBlock : Option (BuiltPayloadExecutedBlock Tx)}
    {calls : List (Call Tx Db)}
    (h : Meets (step X debugAssertions) (Undisturbed X debugAssertions) (.new pendingBlock) calls) :
    (Pushed (exec (step X debugAssertions) (.new pendingBlock) calls).2 →
        Coupled (exec (step X debugAssertions) (.new pendingBlock) calls).1.inner) ∧
      BuiltInOrder (exec (step X debugAssertions) (.new pendingBlock) calls).2 := by
  apply exec_invariant (fun reached => (Pushed reached.2 → Coupled reached.1.inner) ∧
    BuiltInOrder reached.2) ?_ ?_ h
  · constructor
    · rintro ⟨_, hmem⟩
      cases hmem
    · intro _ _ hmem
      cases hmem
  · intro reached call hreached hcond
    obtain ⟨hcoupled, hordered⟩ := hreached
    obtain ⟨hafter, hbuilt⟩ := keeps_step hcoupled hcond
    rw [pushed_append]
    exact ⟨hafter, builtInOrder_append hordered hbuilt⟩

/-! Flashblock 0 of payload 1 is published; then a received flashblock opens
payload 2, with or without a transaction that does not decode. -/

def published : Call SampleTx SampleDb :=
  .publishBuiltPayload (opens 1 12 []).flashblock (samplePayload blank []) rfl

def received (transactions : List Bytes) : Call SampleTx SampleDb :=
  .processFlashblock sampleProvider sampleChainSpec 1 (opens 2 14 transactions)

theorem coupled_along_run_two_payloads :
    (Pushed (exec (step sample false) (.new none) [published, received []]).2 →
        Coupled (exec (step sample false) (.new none) [published, received []]).1.inner) ∧
      BuiltInOrder (exec (step sample false) (.new none) [published, received []]).2 := by
  have hpublished : Meets (step sample false) (Undisturbed sample false) (.new none) [published] :=
    Meets.nil.concat trivial
  have hreceived : Meets (step sample false) (Undisturbed sample false) (.new none)
      [published, received []] := by
    apply hpublished.concat
    constructor
    · intro _ _ _
      exact ⟨_, ⟨_, _, rfl, rfl, rfl⟩, nofun⟩
    · intro hnone
      exact (hnone ⟨_, List.mem_cons_self⟩).elim
  exact coupled_along_run hreceived

theorem decoupled :
    ¬∀ calls : List (Call SampleTx SampleDb),
      Pushed (exec (step sample false) (.new none) calls).2 →
        Coupled (exec (step sample false) (.new none) calls).1.inner := by
  intro hall
  have hcleared : (exec (step sample false) (.new none)
      [published, received [[1]]]).1.inner.latestPayload = none := rfl
  obtain ⟨payload, index, hlatest, _⟩ := hall [published, received [[1]]]
    ⟨_, List.mem_cons_self⟩
  rw [hcleared] at hlatest
  cases hlatest

end WorldChain.Executor.Coupling
