import WorldChain.Builder.Outcome

/-! `FlashblocksStateExecutor`: the flashblocks of the current payload and the
payload built last. Both calls run under one lock, so a call is one step. -/
namespace WorldChain.Executor.Process
open Library.Fallible
open Wire.Primitives Deps.Revm Deps.Reth Deps.Calls
open Builder.Assemble Builder.Outcome

structure FlashblocksStateExecutorInner (Tx : Type) where
  flashblocks : Flashblocks
  latestPayload : Option (OpBuiltPayload Tx × UInt64)
  /-- Whether a channel for built payloads has been registered. -/
  payloadEvents : Bool

/-- `pendingBlock` is the value in the watch channel. -/
structure FlashblocksStateExecutor (Tx : Type) where
  inner : FlashblocksStateExecutorInner Tx
  pendingBlock : Option (BuiltPayloadExecutedBlock Tx)

def FlashblocksStateExecutor.new {Tx : Type}
    (pendingBlock : Option (BuiltPayloadExecutedBlock Tx)) : FlashblocksStateExecutor Tx where
  inner := { flashblocks := .default, latestPayload := none, payloadEvents := false }
  pendingBlock := pendingBlock

/-- What a call does on the way: it runs `FlashblockBuilder::build` on the
latest payload, pushes a flashblock, sends to a channel or to the peers. -/
inductive Event (Tx : Type)
  | build (flashblock : Flashblock) (latestPayload : Option (OpBuiltPayload Tx × UInt64))
  | push (flashblock : Flashblock)
  | builtPayload (payload : OpBuiltPayload Tx)
  | publishNew (payload : FlashblocksPayload)

structure Returned (Tx : Type) where
  result : Except Failure Unit
  executor : FlashblocksStateExecutor Tx
  events : List (Event Tx)

variable {Tx Db Core : Type}

def publishBuiltPayload (self : FlashblocksStateExecutor Tx) (payload : FlashblocksPayload)
    (builtPayload : OpBuiltPayload Tx) : Returned Tx :=
  match self.inner.flashblocks.push ⟨payload⟩ with
  | .error e => ⟨.error (.error e.message), self, []⟩
  | .ok (_, flashblocks) => {
      result := .ok ()
      executor := { self with
        inner := { self.inner with
          flashblocks := flashblocks
          latestPayload := some (builtPayload, payload.index) } }
      events := [.push ⟨payload⟩, .publishNew payload] }

theorem publishBuiltPayload_cases (self : FlashblocksStateExecutor Tx)
    (payload : FlashblocksPayload) (builtPayload : OpBuiltPayload Tx) :
    (∃ e, publishBuiltPayload self payload builtPayload = ⟨.error e, self, []⟩) ∨
      ∃ isNew flashblocks, self.inner.flashblocks.push ⟨payload⟩ = .ok (isNew, flashblocks) ∧
        publishBuiltPayload self payload builtPayload = {
          result := .ok ()
          executor := {
            inner := {
              flashblocks := flashblocks
              latestPayload := some (builtPayload, payload.index)
              payloadEvents := self.inner.payloadEvents }
            pendingBlock := self.pendingBlock }
          events := [.push ⟨payload⟩, .publishNew payload] } := by
  unfold publishBuiltPayload
  cases hpush : self.inner.flashblocks.push ⟨payload⟩ with
  | error e => exact .inl ⟨_, rfl⟩
  | ok pushed => exact .inr ⟨pushed.1, pushed.2, rfl, rfl⟩

def registerPayloadEvents (self : FlashblocksStateExecutor Tx) : FlashblocksStateExecutor Tx :=
  { self with inner := { self.inner with payloadEvents := true } }

/-- The provider of a node; a header may be looked up many times before it is there. -/
structure Provider (Db : Type) where
  sealedHeaderByHash : Nat → B256 → Except String (Option SealedHeader)
  stateByBlockHash : B256 → Except String Db
  chainSpec : OpChainSpec

def fetchHeader (provider : Provider Db) (attempt : Nat) (blockHash : B256) :
    Except String SealedHeader := do
  match ← provider.sealedHeaderByHash attempt blockHash with
  | some header => return header
  | none => .error ("missing sealed header: 0x" ++ blockHash.toHex)

/-- Retry without a limit: out of fuel the call has not returned. -/
def fetchHeaderRetrying (provider : Provider Db) (blockHash : B256) :
    (fuel : Nat) → (attempt : Nat) → Option SealedHeader
  | 0, _ => none
  | fuel + 1, attempt =>
      match fetchHeader provider attempt blockHash with
      | .ok header => some header
      | .error _ => fetchHeaderRetrying provider blockHash fuel (attempt + 1)

/-- Once the header is there, enough retries return. -/
theorem fetchHeaderRetrying_isSome {provider : Provider Db} {blockHash : B256}
    {attempt later fuel : Nat} (hthere : (fetchHeader provider (attempt + later) blockHash).isOk)
    (hfuel : later < fuel) : (fetchHeaderRetrying provider blockHash fuel attempt).isSome := by
  induction fuel generalizing attempt later with
  | zero => omega
  | succ fuel ih =>
      unfold fetchHeaderRetrying
      cases hfirst : fetchHeader provider attempt blockHash with
      | ok header => rfl
      | error e =>
          cases later with
          | zero =>
              rw [Nat.add_zero, hfirst] at hthere
              cases hthere
          | succ later =>
              have hnext : attempt + 1 + later = attempt + (later + 1) := by omega
              have hlater : (fetchHeader provider (attempt + 1 + later) blockHash).isOk := by
                rwa [hnext]
              exact ih hlater (by omega)

theorem fetchHeaderRetrying_eq_some {provider : Provider Db} {blockHash : B256}
    {fuel attempt : Nat} {header : SealedHeader}
    (h : fetchHeaderRetrying provider blockHash fuel attempt = some header) :
    ∃ later, provider.sealedHeaderByHash later blockHash = .ok (some header) := by
  induction fuel generalizing attempt with
  | zero => cases h
  | succ fuel ih =>
      unfold fetchHeaderRetrying at h
      cases hfirst : fetchHeader provider attempt blockHash with
      | error e =>
          rw [hfirst] at h
          exact ih h
      | ok found =>
          rw [hfirst] at h
          cases h
          obtain ⟨answer, hanswer, hfound⟩ := bind_eq_ok.mp hfirst
          cases answer with
          | none => cases hfound
          | some _ =>
              cases hfound
              exact ⟨attempt, hanswer⟩

variable (X : Crates Tx Db Core)

def decodeTransactions (diff : ExecutionPayloadFlashblockDeltaV1) :
    Except Failure (List (WithEncoded Tx)) :=
  diff.transactions.mapM fun b => do
    let tx ← orError (X.decode2718Exact b)
    return ⟨b, tx⟩

def eip1559Params (chainSpec : OpChainSpec) (timestamp : UInt64) : Except Failure B64 := do
  let eip1559 ← orError
    (X.encodeHoloceneExtraData 0 (chainSpec.baseFeeParamsAtTimestamp timestamp))
  if eip1559.length < 9 then .error (.panic "range end index 9 out of range for slice")
  else return .ofNat 64 (((eip1559.drop 1).take 8).foldl (fun value b => value * 256 + b.toNat) 0)

def attributesOf (base : ExecutionPayloadBaseV1) (flashblock : Flashblock)
    (transactions : List (WithEncoded Tx)) (params : B64) : OpPayloadBuilderAttributes Tx where
  payloadAttributes := {
    id := flashblock.payloadId
    parent := base.parentHash
    timestamp := base.timestamp
    suggestedFeeRecipient := base.feeRecipient
    prevRandao := base.prevRandao
    withdrawals := flashblock.diff.withdrawals
    parentBeaconBlockRoot := some base.parentBeaconBlockRoot }
  noTxPool := true
  transactions := transactions
  gasLimit := none
  eip1559Params := some params
  minBaseFee := none

def receivedAttributes (chainSpec : OpChainSpec) (base : ExecutionPayloadBaseV1)
    (flashblock : Flashblock) : Except Failure (OpPayloadBuilderAttributes Tx) := do
  let transactions ← decodeTransactions X flashblock.diff
  let params ← eip1559Params X chainSpec base.timestamp
  return attributesOf base flashblock transactions params

def nextBlockContext (base : ExecutionPayloadBaseV1) : OpNextBlockEnvAttributes where
  timestamp := base.timestamp
  suggestedFeeRecipient := base.feeRecipient
  prevRandao := base.prevRandao
  gasLimit := base.gasLimit
  parentBeaconBlockRoot := some base.parentBeaconBlockRoot
  extraData := base.extraData

structure BuildArgs (Tx Db : Type) where
  stateProvider : Db
  ctx : OpPayloadBuilderCtx Tx
  evmEnv : EvmEnv

def argsAt (provider : Provider Db) (base : ExecutionPayloadBaseV1)
    (committed : Option (OpBuiltPayload Tx)) (attributes : OpPayloadBuilderAttributes Tx)
    (sealedHeader : SealedHeader) : Except Failure (BuildArgs Tx Db) := do
  let stateProvider ← orError (provider.stateByBlockHash base.parentHash)
  let evmEnv ← orError (X.nextEvmEnv sealedHeader.header (nextBlockContext base))
  return {
    stateProvider := stateProvider
    ctx := {
      chainSpec := provider.chainSpec
      config := { parentHeader := sealedHeader, attributes := attributes }
      bestPayload := committed }
    evmEnv := evmEnv }

/-- Everything up to the build; `none` while the header has not been found. -/
def buildArgs (provider : Provider Db) (chainSpec : OpChainSpec) (fuel : Nat)
    (base : ExecutionPayloadBaseV1) (committed : Option (OpBuiltPayload Tx))
    (flashblock : Flashblock) : Option (Except Failure (BuildArgs Tx Db)) :=
  match receivedAttributes X chainSpec base flashblock with
  | .error e => some (.error e)
  | .ok attributes =>
      (fetchHeaderRetrying provider base.parentHash fuel 0).map
        (argsAt X provider base committed attributes)

def buildContents (base : ExecutionPayloadBaseV1) (committed : Option (OpBuiltPayload Tx))
    (flashblock : Flashblock) (args : BuildArgs Tx Db) :
    Except Failure (Option (OpBuiltPayload Tx)) := do
  let outcome ← build X args.stateProvider args.stateProvider args.ctx committed
    flashblock.diff.blockAccessList args.evmEnv base.extraData
  return outcome.payload

def alreadyProcessed (self : FlashblocksStateExecutorInner Tx) (flashblock : Flashblock) :
    Option (OpBuiltPayload Tx) :=
  match self.latestPayload with
  | some (payload, index) =>
      if payload.id = flashblock.flashblock.payloadId ∧ flashblock.flashblock.index ≤ index then
        some payload
      else none
  | none => none

/-- The state once it is known whether a flashblock opens a new payload. -/
def opened (self : FlashblocksStateExecutor Tx) (isNew : Bool) : FlashblocksStateExecutor Tx :=
  if isNew then { self with inner := { self.inner with latestPayload := none } } else self

/-- The unwrap is safe: a flashblock that opens a payload has a base. -/
def baseOf (self : FlashblocksStateExecutor Tx) (isNew : Bool) (flashblock : Flashblock) :
    Except Failure ExecutionPayloadBaseV1 :=
  if isNew then orPanic "called unwrap on a None value" flashblock.base
  else .ok self.inner.flashblocks.base

def install (self : FlashblocksStateExecutor Tx) (flashblock : Flashblock)
    (payload : OpBuiltPayload Tx) : Returned Tx :=
  match self.inner.flashblocks.push flashblock with
  | .error e => ⟨.error (.error e.message), self, []⟩
  | .ok (_, flashblocks) => {
      result := .ok ()
      executor := {
        inner := { self.inner with
          flashblocks := flashblocks
          latestPayload := some (payload, flashblock.flashblock.index) }
        pendingBlock := payload.executedBlock }
      events := .push flashblock ::
        if self.inner.payloadEvents then [.builtPayload payload] else [] }

/-- The call from the build on. The assertion is there in debug builds only. -/
def buildAndInstall (debugAssertions : Bool) (self : FlashblocksStateExecutor Tx)
    (base : ExecutionPayloadBaseV1) (flashblock : Flashblock) (args : BuildArgs Tx Db) :
    Returned Tx :=
  let running : Event Tx := .build flashblock self.inner.latestPayload
  match buildContents X base (self.inner.latestPayload.map Prod.fst) flashblock args with
  | .error e => ⟨.error e, self, [running]⟩
  | .ok none => ⟨.ok (), self, [running]⟩
  | .ok (some payload) =>
      if debugAssertions ∧ X.blockHash payload.block ≠ flashblock.diff.blockHash then
        ⟨.error (.panic "executed block hash does not match flashblock diff block hash"), self,
          [running]⟩
      else
        let installed := install self flashblock payload
        { installed with events := running :: installed.events }

def processFlashblock (debugAssertions : Bool) (provider : Provider Db) (chainSpec : OpChainSpec)
    (fuel : Nat) (self : FlashblocksStateExecutor Tx) (flashblock : Flashblock) :
    Option (Returned Tx) :=
  match alreadyProcessed self.inner flashblock with
  | some payload => some ⟨.ok (), { self with pendingBlock := payload.executedBlock }, []⟩
  | none =>
      match self.inner.flashblocks.isNewPayload flashblock with
      | .error e => some ⟨.error (.error e.message), self, []⟩
      | .ok isNew =>
          let self := opened self isNew
          match baseOf self isNew flashblock with
          | .error e => some ⟨.error e, self, []⟩
          | .ok base =>
              (buildArgs X provider chainSpec fuel base (self.inner.latestPayload.map Prod.fst)
                flashblock).map fun
                | .error e => ⟨.error e, self, []⟩
                | .ok args => buildAndInstall X debugAssertions self base flashblock args

def Builds (provider : Provider Db) (chainSpec : OpChainSpec) (fuel : Nat)
    (self : FlashblocksStateExecutor Tx) (isNew : Bool) (flashblock : Flashblock)
    (payload : OpBuiltPayload Tx) : Prop :=
  ∃ base args, baseOf self isNew flashblock = .ok base ∧
    buildArgs X provider chainSpec fuel base (self.inner.latestPayload.map Prod.fst) flashblock =
      some (.ok args) ∧
    buildContents X base (self.inner.latestPayload.map Prod.fst) flashblock args = .ok (some payload)

inductive Processed (debugAssertions : Bool) (provider : Provider Db) (chainSpec : OpChainSpec)
    (fuel : Nat) (self : FlashblocksStateExecutor Tx) (flashblock : Flashblock) :
    Returned Tx → Prop
  | known (payload : OpBuiltPayload Tx)
      (hknown : alreadyProcessed self.inner flashblock = some payload) :
      Processed debugAssertions provider chainSpec fuel self flashblock
        ⟨.ok (), { self with pendingBlock := payload.executedBlock }, []⟩
  | refused (e : FlashblocksError)
      (hunknown : alreadyProcessed self.inner flashblock = none)
      (hrefused : self.inner.flashblocks.isNewPayload flashblock = .error e) :
      Processed debugAssertions provider chainSpec fuel self flashblock
        ⟨.error (.error e.message), self, []⟩
  | failed (isNew : Bool) (e : Failure) (events : List (Event Tx))
      (hunknown : alreadyProcessed self.inner flashblock = none)
      (hisNew : self.inner.flashblocks.isNewPayload flashblock = .ok isNew)
      (hfailed : ∀ payload,
        Builds X provider chainSpec fuel (opened self isNew) isNew flashblock payload →
          debugAssertions ∧ X.blockHash payload.block ≠ flashblock.diff.blockHash)
      (hevents : ∀ event ∈ events,
        event = .build flashblock (opened self isNew).inner.latestPayload) :
      Processed debugAssertions provider chainSpec fuel self flashblock
        ⟨.error e, opened self isNew, events⟩
  | installed (isNew : Bool) (payload : OpBuiltPayload Tx) (flashblocks : Flashblocks)
      (hunknown : alreadyProcessed self.inner flashblock = none)
      (hisNew : self.inner.flashblocks.isNewPayload flashblock = .ok isNew)
      (hbuilds : Builds X provider chainSpec fuel (opened self isNew) isNew flashblock payload)
      (hassertion : debugAssertions → X.blockHash payload.block = flashblock.diff.blockHash)
      (hpush : self.inner.flashblocks.push flashblock = .ok (isNew, flashblocks)) :
      Processed debugAssertions provider chainSpec fuel self flashblock {
        result := .ok ()
        executor := {
          inner := {
            flashblocks := flashblocks
            latestPayload := some (payload, flashblock.flashblock.index)
            payloadEvents := self.inner.payloadEvents }
          pendingBlock := payload.executedBlock }
        events := .build flashblock (opened self isNew).inner.latestPayload :: .push flashblock ::
          if self.inner.payloadEvents then [.builtPayload payload] else [] }

variable {X}

@[simp] theorem opened_flashblocks (self : FlashblocksStateExecutor Tx) (isNew : Bool) :
    (opened self isNew).inner.flashblocks = self.inner.flashblocks := by
  cases isNew <;> rfl

@[simp] theorem opened_payloadEvents (self : FlashblocksStateExecutor Tx) (isNew : Bool) :
    (opened self isNew).inner.payloadEvents = self.inner.payloadEvents := by
  cases isNew <;> rfl

theorem buildContents_ok {base : ExecutionPayloadBaseV1} {committed : Option (OpBuiltPayload Tx)}
    {flashblock : Flashblock} {args : BuildArgs Tx Db} {built : Option (OpBuiltPayload Tx)}
    (h : buildContents X base committed flashblock args = .ok built) :
    ∃ payload, built = some payload ∧ payload.id = args.ctx.payloadId := by
  obtain ⟨outcome, hbuild, heq⟩ := bind_eq_ok.mp h
  cases heq
  obtain ⟨_, payload, _, hassemble, rfl⟩ := build_eq_ok.mp hbuild
  refine ⟨payload, ?_, assemble_id hassemble⟩
  split <;> rfl

theorem buildArgs_eq_ok {provider : Provider Db} {chainSpec : OpChainSpec} {fuel : Nat}
    {base : ExecutionPayloadBaseV1} {committed : Option (OpBuiltPayload Tx)}
    {flashblock : Flashblock} {args : BuildArgs Tx Db}
    (h : buildArgs X provider chainSpec fuel base committed flashblock = some (.ok args)) :
    ∃ transactions params later,
      args.ctx.config.attributes = attributesOf base flashblock transactions params ∧
      args.ctx.chainSpec = provider.chainSpec ∧
      provider.sealedHeaderByHash later base.parentHash = .ok (some args.ctx.parent) ∧
      provider.stateByBlockHash base.parentHash = .ok args.stateProvider ∧
      X.nextEvmEnv args.ctx.parent.header (nextBlockContext base) = .ok args.evmEnv := by
  unfold buildArgs at h
  cases hattributes : receivedAttributes X chainSpec base flashblock with
  | error e =>
      rw [hattributes] at h
      cases h
  | ok attributes =>
      rw [hattributes] at h
      obtain ⟨header, hheader, hargs⟩ := Option.map_eq_some_iff.mp h
      obtain ⟨stateProvider, hstate, hrest⟩ := bind_eq_ok.mp hargs
      obtain ⟨evmEnv, hevmEnv, heq⟩ := bind_eq_ok.mp hrest
      cases heq
      obtain ⟨transactions, _, hparams⟩ := bind_eq_ok.mp hattributes
      obtain ⟨params, _, heq⟩ := bind_eq_ok.mp hparams
      cases heq
      obtain ⟨later, hlater⟩ := fetchHeaderRetrying_eq_some hheader
      exact ⟨transactions, params, later, rfl, rfl, hlater, orError_eq_ok.mp hstate,
        orError_eq_ok.mp hevmEnv⟩

theorem builds_id {provider : Provider Db} {chainSpec : OpChainSpec} {fuel : Nat}
    {self : FlashblocksStateExecutor Tx} {isNew : Bool} {flashblock : Flashblock}
    {payload : OpBuiltPayload Tx}
    (h : Builds X provider chainSpec fuel self isNew flashblock payload) :
    payload.id = flashblock.payloadId := by
  obtain ⟨_, _, _, hargs, hcontents⟩ := h
  obtain ⟨built, heq, hid⟩ := buildContents_ok hcontents
  cases heq
  obtain ⟨_, _, _, hattributes, _⟩ := buildArgs_eq_ok hargs
  rw [hid, OpPayloadBuilderCtx.payloadId, OpPayloadBuilderCtx.attributes, hattributes]
  rfl

theorem builds_iff {provider : Provider Db} {chainSpec : OpChainSpec} {fuel : Nat}
    {self : FlashblocksStateExecutor Tx} {isNew : Bool} {flashblock : Flashblock}
    {base : ExecutionPayloadBaseV1} {args : BuildArgs Tx Db}
    (hbase : baseOf self isNew flashblock = .ok base)
    (hargs : buildArgs X provider chainSpec fuel base (self.inner.latestPayload.map Prod.fst)
      flashblock = some (.ok args)) (payload : OpBuiltPayload Tx) :
    Builds X provider chainSpec fuel self isNew flashblock payload ↔
      buildContents X base (self.inner.latestPayload.map Prod.fst) flashblock args =
        .ok (some payload) := by
  constructor
  · rintro ⟨base', args', hbase', hargs', hcontents⟩
    rw [hbase] at hbase'
    cases hbase'
    rw [hargs] at hargs'
    cases hargs'
    exact hcontents
  · intro hcontents
    exact ⟨base, args, hbase, hargs, hcontents⟩

theorem builds_unique {provider : Provider Db} {chainSpec : OpChainSpec} {fuel : Nat}
    {self : FlashblocksStateExecutor Tx} {isNew : Bool} {flashblock : Flashblock}
    {payload payload' : OpBuiltPayload Tx}
    (h : Builds X provider chainSpec fuel self isNew flashblock payload)
    (h' : Builds X provider chainSpec fuel self isNew flashblock payload') :
    payload = payload' := by
  obtain ⟨base, args, hbase, hargs, hcontents⟩ := h
  rw [builds_iff hbase hargs, hcontents] at h'
  exact Option.some.inj (Except.ok.inj h')

theorem push_of_isNewPayload {flashblocks : Flashblocks} {flashblock : Flashblock} {isNew : Bool}
    (h : flashblocks.isNewPayload flashblock = .ok isNew) :
    ∃ next, flashblocks.push flashblock = .ok (isNew, next) := by
  cases isNew with
  | true => exact ⟨_, push_of_new h⟩
  | false => exact ⟨_, push_of_next h⟩

theorem buildAndInstall_processed {debugAssertions : Bool} {provider : Provider Db}
    {chainSpec : OpChainSpec} {fuel : Nat} {self : FlashblocksStateExecutor Tx}
    {flashblock : Flashblock} {isNew : Bool} {base : ExecutionPayloadBaseV1}
    {args : BuildArgs Tx Db} (hunknown : alreadyProcessed self.inner flashblock = none)
    (hisNew : self.inner.flashblocks.isNewPayload flashblock = .ok isNew)
    (hbase : baseOf (opened self isNew) isNew flashblock = .ok base)
    (hargs : buildArgs X provider chainSpec fuel base
      ((opened self isNew).inner.latestPayload.map Prod.fst) flashblock = some (.ok args)) :
    Processed X debugAssertions provider chainSpec fuel self flashblock
      (buildAndInstall X debugAssertions (opened self isNew) base flashblock args) := by
  have hbuilds := builds_iff hbase hargs
  unfold buildAndInstall
  cases hcontents : buildContents X base ((opened self isNew).inner.latestPayload.map Prod.fst)
      flashblock args with
  | error e =>
      refine .failed isNew e _ hunknown hisNew ?_ (by simp)
      intro payload h
      rw [hbuilds, hcontents] at h
      cases h
  | ok built =>
      obtain ⟨payload, rfl, _⟩ := buildContents_ok hcontents
      by_cases hassertion : debugAssertions ∧ X.blockHash payload.block ≠ flashblock.diff.blockHash
      · simp only [if_pos hassertion]
        refine .failed isNew _ _ hunknown hisNew ?_ (by simp)
        intro payload' h
        rw [hbuilds, hcontents] at h
        cases h
        exact hassertion
      · obtain ⟨next, hpush⟩ := push_of_isNewPayload hisNew
        simp only [if_neg hassertion, install, opened_flashblocks, hpush, opened_payloadEvents]
        refine .installed isNew payload next hunknown hisNew ((hbuilds payload).mpr hcontents) ?_ hpush
        intro hdebug
        exact not_not.mp fun hne => hassertion ⟨hdebug, hne⟩

/-- What is left to do once it is known whether there are arguments to build with. -/
def finish (X : Crates Tx Db Core) (debugAssertions : Bool) (self : FlashblocksStateExecutor Tx)
    (base : ExecutionPayloadBaseV1) (flashblock : Flashblock) :
    Except Failure (BuildArgs Tx Db) → Returned Tx
  | .error e => ⟨.error e, self, []⟩
  | .ok args => buildAndInstall X debugAssertions self base flashblock args

inductive Stage (X : Crates Tx Db Core) (debugAssertions : Bool) (provider : Provider Db)
    (chainSpec : OpChainSpec) (fuel : Nat) (executor : FlashblocksStateExecutor Tx)
    (flashblock : Flashblock) : Option (Returned Tx) → Prop
  | known (payload : OpBuiltPayload Tx)
      (hknown : alreadyProcessed executor.inner flashblock = some payload) :
      Stage X debugAssertions provider chainSpec fuel executor flashblock
        (some ⟨.ok (), { executor with pendingBlock := payload.executedBlock }, []⟩)
  | refused (e : FlashblocksError)
      (hunknown : alreadyProcessed executor.inner flashblock = none)
      (hrefused : executor.inner.flashblocks.isNewPayload flashblock = .error e) :
      Stage X debugAssertions provider chainSpec fuel executor flashblock
        (some ⟨.error (.error e.message), executor, []⟩)
  | ready (isNew : Bool) (base : ExecutionPayloadBaseV1)
      (hunknown : alreadyProcessed executor.inner flashblock = none)
      (hisNew : executor.inner.flashblocks.isNewPayload flashblock = .ok isNew)
      (hbase : baseOf (opened executor isNew) isNew flashblock = .ok base) :
      Stage X debugAssertions provider chainSpec fuel executor flashblock
        ((buildArgs X provider chainSpec fuel base
          ((opened executor isNew).inner.latestPayload.map Prod.fst) flashblock).map
            (finish X debugAssertions (opened executor isNew) base flashblock))

theorem baseOf_eq_ok {self : FlashblocksStateExecutor Tx} {flashblock : Flashblock} {isNew : Bool}
    (h : self.inner.flashblocks.isNewPayload flashblock = .ok isNew) :
    ∃ base, baseOf (opened self isNew) isNew flashblock = .ok base := by
  cases isNew with
  | false => exact ⟨_, rfl⟩
  | true =>
      obtain ⟨_, _, base, hbase, _⟩ := isNewPayload_true h
      exact ⟨base, orPanic_eq_ok.mpr hbase⟩

theorem staged (debugAssertions : Bool) (provider : Provider Db) (chainSpec : OpChainSpec)
    (fuel : Nat) (self : FlashblocksStateExecutor Tx) (flashblock : Flashblock) :
    Stage X debugAssertions provider chainSpec fuel self flashblock
      (processFlashblock X debugAssertions provider chainSpec fuel self flashblock) := by
  unfold processFlashblock
  cases hknown : alreadyProcessed self.inner flashblock with
  | some payload => exact .known payload hknown
  | none =>
      cases hisNew : self.inner.flashblocks.isNewPayload flashblock with
      | error e => exact .refused e hknown hisNew
      | ok isNew =>
          obtain ⟨base, hbase⟩ := baseOf_eq_ok hisNew
          simp only [hbase]
          convert Stage.ready isNew base hknown hisNew hbase using 2
          funext args
          cases args <;> rfl

theorem processed {debugAssertions : Bool} {provider : Provider Db} {chainSpec : OpChainSpec}
    {fuel : Nat} {self : FlashblocksStateExecutor Tx} {flashblock : Flashblock}
    {done : Returned Tx}
    (h : processFlashblock X debugAssertions provider chainSpec fuel self flashblock = some done) :
    Processed X debugAssertions provider chainSpec fuel self flashblock done := by
  have hstage := @staged _ _ _ X debugAssertions provider chainSpec fuel self flashblock
  rw [h] at hstage
  generalize hanswer : some done = answer at hstage
  cases hstage with
  | known payload hknown =>
      cases hanswer
      exact .known payload hknown
  | refused e hunknown hrefused =>
      cases hanswer
      exact .refused e hunknown hrefused
  | ready isNew base hunknown hisNew hbase =>
      obtain ⟨args, hargs, heq⟩ := Option.map_eq_some_iff.mp hanswer.symm
      cases args with
      | error e =>
          cases heq
          refine .failed isNew e [] hunknown hisNew ?_ (by simp)
          rintro payload ⟨base', _, hbase', hargs', _⟩
          rw [hbase] at hbase'
          cases hbase'
          rw [hargs] at hargs'
          cases hargs'
      | ok args =>
          cases heq
          exact buildAndInstall_processed hunknown hisNew hbase hargs

end WorldChain.Executor.Process
