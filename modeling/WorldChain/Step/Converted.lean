import WorldChain.Executor.Panics
import WorldChain.Step.Rebuilt

/-! Which collections of flashblocks panic the conversion to a block. -/
namespace WorldChain.Step.Converted
open Library.Fallible Wire.Primitives Wire.Message Wire.Alloy Wire.Collection Wire.Reduce
open Deps.Revm Deps.Reth Deps.Calls Deps.Concrete Rebuilt
open Executor.Panics (IsPanic error_avoids)

variable {Tx Db Core : Type} (X : Crates Tx Db Core) (W : Conversions Tx)

theorem toU64_avoids_iff (value : U256) :
    Avoids IsPanic (toU64 value) ↔ value.toNat < UInt64.size := by
  unfold toU64
  split
  · rename_i hfits
    exact iff_of_true (avoids_ok _) hfits
  · rename_i hlarge
    refine iff_of_false ?_ hlarge
    simp [IsPanic]

theorem wrapped_avoids {α : Type} (message : String) (x : Except String α) :
    Avoids IsPanic (x.mapError fun e => Failure.error (message ++ e)) :=
  avoids_mapError (fun _ ⟨_, h⟩ => by cases h) x

theorem blockOfFlashblock_avoids_iff (value : Flashblock) :
    Avoids IsPanic (blockOfFlashblock X W value) ↔
      ∀ base ∈ value.base, base.baseFeePerGas.toNat < UInt64.size := by
  unfold blockOfFlashblock
  cases hbase : value.base with
  | none => exact iff_of_true (error_avoids _) (by simp)
  | some base =>
      dsimp only
      rw [avoids_bind_iff, toU64_avoids_iff]
      simp only [Option.mem_some_iff, forall_eq', and_iff_left_iff_imp]
      intro _ baseFeePerGas _
      apply (wrapped_avoids _ _).bind
      intro transactions _
      exact (wrapped_avoids _ _).bind_pure _

/-- The reduction does not panic, and keeps the base of the first flashblock. -/
theorem conversion_avoids_iff (debugAssertions : Bool) (value : Flashblocks) :
    Avoids IsPanic (blockOfFlashblocks X W debugAssertions value) ↔
      value.base.baseFeePerGas.toNat < UInt64.size := by
  obtain ⟨first, rest, hvalue⟩ := List.exists_cons_of_ne_nil value.guaranteed.nonempty
  have hbase : first.base = some value.base := by
    rw [← first_flashblock value hvalue]
    exact (Option.some_get (value.guaranteed.base _ value.first_mem_head?)).symm
  have hreduced := blockOfFlashblock_avoids_iff X W
    ⟨merged first.flashblock (rest.map (·.flashblock))⟩
  have hkept : Flashblock.base ⟨merged first.flashblock (rest.map (·.flashblock))⟩ =
      some value.base := hbase
  rw [hkept] at hreduced
  unfold blockOfFlashblocks
  rw [reduce_eq debugAssertions value hvalue]
  exact hreduced.trans (by simp)

def costly : FlashblocksPayload :=
  { FlashblocksPayload.bare 7 0 with
    base := some { baseFeePerGas := .ofNat 256 UInt64.size } }

/-- It comes off the wire and is taken into a collection. -/
theorem costly_panics :
    ¬∀ debugAssertions buf payload rest value,
      decodeMsg sampleCodecs buf = .ok (.flashblocksPayloadV1 payload, rest) →
        Flashblocks.new [⟨payload⟩] = .ok value →
          Avoids IsPanic (blockOfFlashblocks sample sampleConversions debugAssertions value) := by
  intro hall
  have hdecode := (msg_lawful sample_lawful).decode (.flashblocksPayloadV1 costly) []
    (by decide +kernel)
  have hguaranteed : Guaranteed [⟨costly⟩] := guaranteed_singleton rfl rfl
  have havoids := hall true _ costly [] _ hdecode (new_of_guaranteed hguaranteed)
  exact havoids (.panic "Uint conversion error") rfl ⟨_, rfl⟩

end WorldChain.Step.Converted
