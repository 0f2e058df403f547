import WorldChain.Executor.Announced

/-! When a call to process a flashblock returns. It looks the parent's header up
until the provider has it, and holds the executor's lock meanwhile. -/
namespace WorldChain.Executor.Returns
open Wire.Primitives Deps.Revm Deps.Reth Deps.Calls Deps.Concrete
open Process Announced

variable {Tx Db Core : Type}

/-- The base of a flashblock that the call gets as far as looking up the parent of. -/
def lookedUp (X : Crates Tx Db Core) (chainSpec : OpChainSpec) (self : FlashblocksStateExecutor Tx)
    (flashblock : Flashblock) : Option ExecutionPayloadBaseV1 :=
  match alreadyProcessed self.inner flashblock with
  | some _ => none
  | none =>
      match self.inner.flashblocks.isNewPayload flashblock with
      | .error _ => none
      | .ok isNew =>
          match baseOf (opened self isNew) isNew flashblock with
          | .error _ => none
          | .ok base =>
              if (receivedAttributes X chainSpec base flashblock).isOk then some base else none

variable {X : Crates Tx Db Core} {provider : Provider Db} {blockHash : B256}

theorem fetchHeaderRetrying_mono {fuel more attempt : Nat} {header : SealedHeader}
    (hfuel : fuel ≤ more)
    (h : fetchHeaderRetrying provider blockHash fuel attempt = some header) :
    fetchHeaderRetrying provider blockHash more attempt = some header := by
  induction fuel generalizing more attempt with
  | zero => cases h
  | succ fuel ih =>
      obtain ⟨later, rfl⟩ := Nat.exists_eq_add_of_le' (Nat.lt_of_lt_of_le fuel.succ_pos hfuel)
      unfold fetchHeaderRetrying at h ⊢
      cases hfetch : fetchHeader provider attempt blockHash with
      | ok found =>
          rw [hfetch] at h
          exact h
      | error e =>
          rw [hfetch] at h
          exact ih (by omega) h

theorem fetchHeaderRetrying_returns_iff (provider : Provider Db) (blockHash : B256) :
    (∃ fuel header, fetchHeaderRetrying provider blockHash fuel 0 = some header) ↔
      ∃ attempt header, provider.sealedHeaderByHash attempt blockHash = .ok (some header) := by
  constructor
  · rintro ⟨fuel, header, h⟩
    obtain ⟨later, hlater⟩ := fetchHeaderRetrying_eq_some h
    exact ⟨later, header, hlater⟩
  · rintro ⟨attempt, header, hanswer⟩
    have hthere : (fetchHeader provider (0 + attempt) blockHash).isOk := by
      rw [Nat.zero_add, fetchHeader, hanswer]
      rfl
    have hsome := fetchHeaderRetrying_isSome hthere attempt.lt_succ_self
    exact ⟨_, Option.isSome_iff_exists.mp hsome⟩

/-- A call either has its answer without a lookup or goes on from the header. -/
theorem processFlashblock_cases (debugAssertions : Bool) (provider : Provider Db)
    (chainSpec : OpChainSpec) (self : FlashblocksStateExecutor Tx) (flashblock : Flashblock) :
    match lookedUp X chainSpec self flashblock with
    | none => ∃ returned, ∀ fuel,
        processFlashblock X debugAssertions provider chainSpec fuel self flashblock = some returned
    | some base => ∃ finish : SealedHeader → Returned Tx, ∀ fuel,
        processFlashblock X debugAssertions provider chainSpec fuel self flashblock =
          (fetchHeaderRetrying provider base.parentHash fuel 0).map finish := by
  unfold lookedUp processFlashblock
  cases alreadyProcessed self.inner flashblock with
  | some payload => exact ⟨_, fun _ => rfl⟩
  | none =>
      cases self.inner.flashblocks.isNewPayload flashblock with
      | error e => exact ⟨_, fun _ => rfl⟩
      | ok isNew =>
          dsimp only
          cases baseOf (opened self isNew) isNew flashblock with
          | error e => exact ⟨_, fun _ => rfl⟩
          | ok base =>
              dsimp only [buildArgs]
              cases receivedAttributes X chainSpec base flashblock with
              | error e => exact ⟨_, fun _ => rfl⟩
              | ok attributes =>
                  simp only [Option.map_map]
                  exact ⟨_, fun _ => rfl⟩

/-- Exactly when a call returns after finitely many lookups. -/
theorem processFlashblock_returns_iff (debugAssertions : Bool) (provider : Provider Db)
    (chainSpec : OpChainSpec) (self : FlashblocksStateExecutor Tx) (flashblock : Flashblock) :
    (∃ lookups returned, ∀ fuel, lookups ≤ fuel →
        processFlashblock X debugAssertions provider chainSpec fuel self flashblock =
          some returned) ↔
      ∀ base ∈ lookedUp X chainSpec self flashblock, ∃ attempt header,
        provider.sealedHeaderByHash attempt base.parentHash = .ok (some header) := by
  have hcases := @processFlashblock_cases _ _ _ X debugAssertions provider chainSpec self flashblock
  cases hlookedUp : lookedUp X chainSpec self flashblock with
  | none =>
      rw [hlookedUp] at hcases
      obtain ⟨returned, hreturned⟩ := hcases
      refine iff_of_true ⟨0, returned, fun fuel _ => hreturned fuel⟩ ?_
      intro base hbase
      cases hbase
  | some base =>
      rw [hlookedUp] at hcases
      obtain ⟨finish, hfinish⟩ := hcases
      simp only [hfinish, Option.mem_some_iff, forall_eq', ← fetchHeaderRetrying_returns_iff]
      constructor
      · rintro ⟨lookups, returned, hreturned⟩
        obtain ⟨header, hheader, _⟩ := Option.map_eq_some_iff.mp (hreturned lookups (Nat.le_refl _))
        exact ⟨lookups, header, hheader⟩
      · rintro ⟨lookups, header, hheader⟩
        refine ⟨lookups, finish header, ?_⟩
        intro fuel hfuel
        rw [fetchHeaderRetrying_mono hfuel hheader, Option.map_some]

def parentUnknown : Provider SampleDb :=
  { sampleProvider with sealedHeaderByHash := fun _ _ => .ok none }

theorem parentUnknown_none (blockHash : B256) (fuel : Nat) :
    fetchHeaderRetrying parentUnknown blockHash fuel 0 = none := by
  cases hheader : fetchHeaderRetrying parentUnknown blockHash fuel 0 with
  | none => rfl
  | some header =>
      obtain ⟨_, hanswer⟩ := fetchHeaderRetrying_eq_some hheader
      cases hanswer

/-- No number of lookups is enough for a payload on top of an unknown block. -/
theorem parentUnknown_never_returns :
    ¬∀ (provider : Provider SampleDb) self flashblock, ∃ lookups returned, ∀ fuel, lookups ≤ fuel →
      processFlashblock sample false provider sampleChainSpec fuel self flashblock =
        some returned := by
  intro hall
  obtain ⟨lookups, returned, hreturned⟩ := hall parentUnknown (.new none) (opens 1 12 [])
  obtain ⟨base, hbase⟩ : ∃ base,
      lookedUp sample sampleChainSpec (.new none) (opens 1 12 []) = some base := ⟨_, rfl⟩
  have hcases := @processFlashblock_cases _ _ _ sample false parentUnknown sampleChainSpec
    (.new none) (opens 1 12 [])
  rw [hbase] at hcases
  obtain ⟨finish, hfinish⟩ := hcases
  have hreturns := hreturned lookups (Nat.le_refl _)
  rw [hfinish, parentUnknown_none] at hreturns
  cases hreturns

end WorldChain.Executor.Returns
