import Mathlib.Data.List.Chain
import WorldChain.Deps.Reth

/-! `FlashblockLimits`: the gas and the time that each flashblock of a job gets.
What is left of both is divided by the flashblocks there is still time for. -/
namespace WorldChain.Step.Limits
open Deps.Reth

/-- In nanoseconds. -/
abbrev Duration := Nat

def asMillis (self : Duration) : Nat := self / 1000000

/-- The limits of rblib that are read and set; others are carried along. -/
structure LimitsApi (L : Type) where
  deadline : L → Option Duration
  gasLimit : L → UInt64
  withDeadline : L → Duration → L
  withGasLimit : L → UInt64 → L

structure LimitsApi.Lawful {L : Type} (A : LimitsApi L) : Prop where
  deadline_withDeadline : ∀ limits deadline,
    A.deadline (A.withDeadline limits deadline) = some deadline
  gasLimit_withDeadline : ∀ limits deadline,
    A.gasLimit (A.withDeadline limits deadline) = A.gasLimit limits
  deadline_withGasLimit : ∀ limits gasLimit,
    A.deadline (A.withGasLimit limits gasLimit) = A.deadline limits
  gasLimit_withGasLimit : ∀ limits gasLimit, A.gasLimit (A.withGasLimit limits gasLimit) = gasLimit

structure FlashblockLimits where
  interval : Duration

def saturatingSub (a b : UInt64) : UInt64 := .ofNat (a.toNat - b.toNat)

def saturatingAdd (a b : UInt64) : UInt64 := .ofNat (min (a.toNat + b.toNat) (UInt64.size - 1))

/-- The quotient is cast to 64 bits. -/
def remainingBlocks (self : FlashblockLimits) (remainingTime : Duration) : UInt64 :=
  .ofNat (asMillis remainingTime / asMillis self.interval)

/-- The line that is logged has each of these amounts in percent. -/
def logsWithoutOverflow (amounts : List UInt64) : Bool :=
  amounts.all fun amount => amount.toNat * 100 < UInt64.size

variable {L : Type} (A : LimitsApi L)

/-- `elapsed` since the payload is being built, and the gas used until now. -/
def create (overflowChecks : Bool) (self : FlashblockLimits) (elapsed : Duration) (gasUsed : UInt64)
    (enclosing : L) : Except Failure L := do
  let payloadDeadline ← orPanic "Flashblock limit require its enclosing scope to have a deadline"
    (A.deadline enclosing)
  let remainingTime := payloadDeadline - elapsed
  if asMillis self.interval = 0 then .error (.panic "attempt to divide by zero")
  else
    let remainingBlocks := remainingBlocks self remainingTime
    if remainingBlocks ≤ 1 then return A.withDeadline enclosing remainingTime
    else
      let remainingGas := saturatingSub (A.gasLimit enclosing) gasUsed
      if remainingGas = 0 then return A.withDeadline enclosing remainingTime
      else
        let gasPerBlock := remainingGas / remainingBlocks
        let nextBlockGasLimit := saturatingAdd gasUsed gasPerBlock
        if overflowChecks ∧
            ¬logsWithoutOverflow [gasUsed, remainingGas, nextBlockGasLimit, gasPerBlock] then
          .error (.panic "attempt to multiply with overflow")
        else return A.withGasLimit (A.withDeadline enclosing self.interval) nextBlockGasLimit

/-! What one call returns. -/

theorem share_mono {used used' total blocks blocks' : Nat} (hused : used ≤ used')
    (htotal : used' ≤ total) (hblocks : blocks' ≤ blocks) (hpos : 0 < blocks') :
    used + (total - used) / blocks ≤ used' + (total - used') / blocks' := by
  have hsplit : total - used ≤ total - used' + (used' - used) * blocks := by
    have hgrown : used' - used ≤ (used' - used) * blocks :=
      Nat.le_mul_of_pos_right _ (Nat.lt_of_lt_of_le hpos hblocks)
    omega
  have hshare : (total - used) / blocks ≤ (total - used') / blocks + (used' - used) := by
    rw [← Nat.add_mul_div_right _ _ (Nat.lt_of_lt_of_le hpos hblocks)]
    exact Nat.div_le_div_right hsplit
  have hfewer : (total - used') / blocks ≤ (total - used') / blocks' :=
    Nat.div_le_div_left hblocks hpos
  omega

theorem share_le {used total blocks : Nat} (hused : used ≤ total) :
    used + (total - used) / blocks ≤ total := by
  have hle := Nat.div_le_self (total - used) blocks
  omega

theorem toNat_saturatingSub (a b : UInt64) : (saturatingSub a b).toNat = a.toNat - b.toNat := by
  have hlt := a.toNat_lt_size
  exact UInt64.toNat_ofNat_of_lt' (by omega)

theorem toNat_share {gasUsed gasLimit : UInt64} (h : gasUsed < gasLimit) (blocks : UInt64) :
    (saturatingAdd gasUsed (saturatingSub gasLimit gasUsed / blocks)).toNat =
      gasUsed.toNat + (gasLimit.toNat - gasUsed.toNat) / blocks.toNat := by
  have hshare := @share_le gasUsed.toNat gasLimit.toNat blocks.toNat
    (Nat.le_of_lt (UInt64.lt_iff_toNat_lt.mp h))
  have hlt := gasLimit.toNat_lt_size
  rw [saturatingAdd, UInt64.toNat_div, toNat_saturatingSub, Nat.min_eq_left (by omega)]
  exact UInt64.toNat_ofNat_of_lt' (by omega)

theorem saturatingSub_eq_zero_iff (a b : UInt64) : saturatingSub a b = 0 ↔ a ≤ b := by
  rw [← UInt64.toNat_inj, toNat_saturatingSub, UInt64.le_iff_toNat_le]
  exact Nat.sub_eq_zero_iff_le

theorem lt_of_saturatingSub_ne_zero {a b : UInt64} (h : saturatingSub a b ≠ 0) : b < a := by
  apply UInt64.not_le.mp
  intro hle
  exact h ((saturatingSub_eq_zero_iff a b).mpr hle)

theorem logsWithoutOverflow_iff {gasUsed gasLimit : UInt64} (h : gasUsed < gasLimit)
    (blocks : UInt64) :
    logsWithoutOverflow [gasUsed, saturatingSub gasLimit gasUsed,
        saturatingAdd gasUsed (saturatingSub gasLimit gasUsed / blocks),
        saturatingSub gasLimit gasUsed / blocks] ↔
      (gasLimit.toNat - gasUsed.toNat) * 100 < UInt64.size ∧
        (gasUsed.toNat + (gasLimit.toNat - gasUsed.toNat) / blocks.toNat) * 100 < UInt64.size := by
  simp only [logsWithoutOverflow, List.all_cons, List.all_nil, Bool.and_true, Bool.and_eq_true,
    decide_eq_true_eq, toNat_share h, UInt64.toNat_div, toNat_saturatingSub]
  generalize (gasLimit.toNat - gasUsed.toNat) / blocks.toNat = share
  omega

theorem logsWithoutOverflow_of_le {gasUsed gasLimit : UInt64}
    (hfits : gasLimit.toNat * 100 < UInt64.size) (h : gasUsed < gasLimit) (blocks : UInt64) :
    logsWithoutOverflow [gasUsed, saturatingSub gasLimit gasUsed,
      saturatingAdd gasUsed (saturatingSub gasLimit gasUsed / blocks),
      saturatingSub gasLimit gasUsed / blocks] := by
  have hused := UInt64.lt_iff_toNat_lt.mp h
  have hshare := @share_le gasUsed.toNat gasLimit.toNat blocks.toNat (Nat.le_of_lt hused)
  apply (logsWithoutOverflow_iff h blocks).mpr
  omega

theorem asMillis_ne_zero_iff (interval : Duration) :
    asMillis interval ≠ 0 ↔ 1000000 ≤ interval := by
  rw [asMillis, Nat.div_ne_zero_iff]
  exact and_iff_right (by decide)

theorem interval_le {self : FlashblockLimits} {remainingTime : Duration}
    (h : 1 < remainingBlocks self remainingTime) : self.interval ≤ remainingTime := by
  have hblocks : 1 < asMillis remainingTime / asMillis self.interval := by
    have hcast : 1 < (asMillis remainingTime / asMillis self.interval) % UInt64.size := by
      rw [← UInt64.toNat_ofNat']
      exact UInt64.lt_iff_toNat_lt.mp h
    exact Nat.lt_of_lt_of_le hcast (Nat.mod_le _ _)
  have hpos : 0 < asMillis self.interval := by
    apply Nat.pos_of_ne_zero
    intro hzero
    rw [hzero, Nat.div_zero] at hblocks
    omega
  have hmillis : 2 * asMillis self.interval ≤ asMillis remainingTime :=
    (Nat.le_div_iff_mul_le hpos).mp hblocks
  unfold asMillis at hpos hmillis
  apply Nat.le_of_lt_succ
  omega

/-- The whole budget where there is no time or no gas for another flashblock
after this one, and else an interval and a share of the gas. -/
inductive Created (A : LimitsApi L) (self : FlashblockLimits) (deadline : Duration) (gasLimit : UInt64)
    (elapsed : Duration) (gasUsed : UInt64) (limits : L) : Prop
  | whole (hlast : remainingBlocks self (deadline - elapsed) ≤ 1 ∨ gasLimit ≤ gasUsed)
      (hdeadline : A.deadline limits = some (deadline - elapsed))
      (hgasLimit : A.gasLimit limits = gasLimit)
  | share (hblocks : 1 < remainingBlocks self (deadline - elapsed)) (hgas : gasUsed < gasLimit)
      (hdeadline : A.deadline limits = some self.interval)
      (hgasLimit : (A.gasLimit limits).toNat = gasUsed.toNat +
        (gasLimit.toNat - gasUsed.toNat) / (remainingBlocks self (deadline - elapsed)).toNat)

variable {A} {self : FlashblockLimits} {enclosing : L} {deadline : Duration}

theorem created {overflowChecks : Bool} {elapsed : Duration} {gasUsed : UInt64} {limits : L}
    (hlaws : A.Lawful) (hdeadline : A.deadline enclosing = some deadline)
    (h : create A overflowChecks self elapsed gasUsed enclosing = .ok limits) :
    Created A self deadline (A.gasLimit enclosing) elapsed gasUsed limits := by
  unfold create at h
  rw [hdeadline] at h
  simp only [orPanic, bind, Except.bind] at h
  split at h
  · cases h
  split at h
  · rename_i hlast
    cases h
    exact .whole (.inl hlast) (hlaws.deadline_withDeadline _ _) (hlaws.gasLimit_withDeadline _ _)
  rename_i hblocks
  split at h
  · rename_i hnone
    cases h
    refine .whole (.inr ?_) (hlaws.deadline_withDeadline _ _) (hlaws.gasLimit_withDeadline _ _)
    exact (saturatingSub_eq_zero_iff _ _).mp hnone
  rename_i hsome
  split at h
  · cases h
  cases h
  have hgas := lt_of_saturatingSub_ne_zero hsome
  refine .share (UInt64.not_le.mp hblocks) hgas ?_ ?_
  · rw [hlaws.deadline_withGasLimit, hlaws.deadline_withDeadline]
  · rw [hlaws.gasLimit_withGasLimit]
    exact toNat_share hgas _

theorem create_isOk {overflowChecks : Bool} {elapsed : Duration} {gasUsed : UInt64}
    (hdeadline : A.deadline enclosing = some deadline) (hinterval : 1000000 ≤ self.interval)
    (hlog : overflowChecks = false ∨
      (gasUsed ≤ A.gasLimit enclosing ∧ (A.gasLimit enclosing).toNat * 100 < UInt64.size)) :
    (create A overflowChecks self elapsed gasUsed enclosing).isOk := by
  have hmillis : asMillis self.interval ≠ 0 := (asMillis_ne_zero_iff _).mpr hinterval
  unfold create
  rw [hdeadline]
  simp only [orPanic, bind, Except.bind, if_neg hmillis]
  split
  · rfl
  split
  · rfl
  rename_i hsome
  split
  · rename_i hoverflow
    cases hlog with
    | inl hunchecked => simp [hunchecked] at hoverflow
    | inr hfits =>
        have hgas := lt_of_saturatingSub_ne_zero hsome
        exact absurd (logsWithoutOverflow_of_le hfits.2 hgas _) hoverflow.2
  · rfl

/-! The flashblocks of a job. -/

structure Call (L : Type) where
  elapsed : Duration
  gasUsed : UInt64
  limits : L

def Served (A : LimitsApi L) (overflowChecks : Bool) (self : FlashblockLimits) (enclosing : L)
    (call : Call L) : Prop :=
  create A overflowChecks self call.elapsed call.gasUsed enclosing = .ok call.limits

/-- The clock and the gas used go on, the gas no further than its limit. -/
structure Follows (A : LimitsApi L) (before after : Call L) : Prop where
  elapsed : before.elapsed ≤ after.elapsed
  gasUsed : before.gasUsed ≤ after.gasUsed
  withinLimit : after.gasUsed ≤ A.gasLimit before.limits

structure WithinBudget (A : LimitsApi L) (factory : FlashblockLimits) (deadline : Duration)
    (gasLimit : UInt64) (call : Call L) : Prop where
  gas : call.gasUsed ≤ gasLimit →
    call.gasUsed ≤ A.gasLimit call.limits ∧ A.gasLimit call.limits ≤ gasLimit
  time : ∃ next, A.deadline call.limits = some next ∧ next ≤ deadline - call.elapsed
  last : remainingBlocks factory (deadline - call.elapsed) ≤ 1 → A.gasLimit call.limits = gasLimit

theorem withinBudget_of_created {gasLimit : UInt64} {call : Call L}
    (h : Created A self deadline gasLimit call.elapsed call.gasUsed call.limits) :
    WithinBudget A self deadline gasLimit call := by
  cases h with
  | whole hlast hdeadline hgasLimit =>
      refine ⟨?_, ⟨_, hdeadline, Nat.le_refl _⟩, fun _ => hgasLimit⟩
      intro hused
      rw [hgasLimit]
      exact ⟨hused, UInt64.le_refl _⟩
  | share hblocks hgas hdeadline hgasLimit =>
      refine ⟨?_, ⟨_, hdeadline, interval_le hblocks⟩, ?_⟩
      · intro hused
        rw [UInt64.le_iff_toNat_le, UInt64.le_iff_toNat_le, hgasLimit]
        exact ⟨Nat.le_add_right _ _, share_le (UInt64.le_iff_toNat_le.mp hused)⟩
      · intro hlast
        exact absurd hlast (UInt64.not_le.mpr hblocks)

/-- The step lemma: with no more blocks to come, the limit does not go down. -/
theorem gasLimit_le_of_follows {gasLimit : UInt64} {before after : Call L}
    (hbefore : Created A self deadline gasLimit before.elapsed before.gasUsed before.limits)
    (hafter : Created A self deadline gasLimit after.elapsed after.gasUsed after.limits)
    (hfollows : Follows A before after)
    (hblocks : remainingBlocks self (deadline - after.elapsed) ≤
      remainingBlocks self (deadline - before.elapsed)) :
    A.gasLimit before.limits ≤ A.gasLimit after.limits := by
  have hwithin := withinBudget_of_created hbefore
  cases hafter with
  | whole hlast hdeadline hgasLimit =>
      rw [hgasLimit]
      cases hbefore with
      | whole _ _ hsame => exact UInt64.le_of_eq hsame
      | share _ hgas _ _ => exact (hwithin.gas (UInt64.le_of_lt hgas)).2
  | share hmore hgas _ hgasLimit =>
      cases hbefore with
      | whole hlast _ _ =>
          cases hlast with
          | inl hfew =>
              exact absurd (UInt64.le_trans hblocks hfew) (UInt64.not_le.mpr hmore)
          | inr hspent =>
              exact absurd (UInt64.le_trans hspent hfollows.gasUsed) (UInt64.not_le.mpr hgas)
      | share _ _ _ hlimit =>
          rw [UInt64.le_iff_toNat_le, hlimit, hgasLimit]
          apply share_mono (UInt64.le_iff_toNat_le.mp hfollows.gasUsed)
          · exact Nat.le_of_lt (UInt64.lt_iff_toNat_lt.mp hgas)
          · exact UInt64.le_iff_toNat_le.mp hblocks
          · exact Nat.lt_of_le_of_lt (Nat.zero_le _) (UInt64.lt_iff_toNat_lt.mp hmore)

/-- Where the quotient fits into 64 bits, time that passes leaves fewer blocks. -/
theorem remainingBlocks_mono {elapsed elapsed' : Duration} (helapsed : elapsed ≤ elapsed')
    (hfits : asMillis deadline / asMillis self.interval < UInt64.size) :
    remainingBlocks self (deadline - elapsed') ≤ remainingBlocks self (deadline - elapsed) := by
  have hquotient : ∀ {time time' : Duration}, time ≤ time' →
      asMillis time / asMillis self.interval ≤ asMillis time' / asMillis self.interval :=
    fun hle => Nat.div_le_div_right (Nat.div_le_div_right hle)
  have hlater := hquotient (Nat.sub_le_sub_left helapsed deadline)
  have hsooner := hquotient (Nat.sub_le deadline elapsed)
  rw [UInt64.le_iff_toNat_le, remainingBlocks, remainingBlocks,
    UInt64.toNat_ofNat_of_lt' (by omega), UInt64.toNat_ofNat_of_lt' (by omega)]
  exact hlater

theorem limits_pairwise {gasLimit : UInt64} {calls : List (Call L)}
    (hcreated : ∀ call ∈ calls,
      Created A self deadline gasLimit call.elapsed call.gasUsed call.limits)
    (hrun : calls.IsChain (Follows A))
    (hblocks : calls.IsChain fun before after =>
      remainingBlocks self (deadline - after.elapsed) ≤
        remainingBlocks self (deadline - before.elapsed)) :
    (calls.map fun call => A.gasLimit call.limits).Pairwise (· ≤ ·) := by
  rw [← List.isChain_iff_pairwise, List.isChain_map]
  rw [List.isChain_iff_getElem] at hrun hblocks ⊢
  intro i hi
  exact gasLimit_le_of_follows (hcreated _ (List.getElem_mem _)) (hcreated _ (List.getElem_mem _))
    (hrun i hi) (hblocks i hi)

/-- The budgets of a whole job: at every call, along the run, and that the calls return. -/
theorem budgets {overflowChecks : Bool} (hlaws : A.Lawful)
    (hdeadline : A.deadline enclosing = some deadline) (hinterval : 1000000 ≤ self.interval)
    {calls : List (Call L)} (hserved : ∀ call ∈ calls, Served A overflowChecks self enclosing call)
    (hrun : calls.IsChain (Follows A)) :
    (∀ call ∈ calls, WithinBudget A self deadline (A.gasLimit enclosing) call) ∧
      (calls.IsChain (fun before after =>
          remainingBlocks self (deadline - after.elapsed) ≤
            remainingBlocks self (deadline - before.elapsed)) →
        (calls.map fun call => A.gasLimit call.limits).Pairwise (· ≤ ·)) ∧
      (asMillis deadline / asMillis self.interval < UInt64.size →
        (calls.map fun call => A.gasLimit call.limits).Pairwise (· ≤ ·)) ∧
      ∀ elapsed gasUsed, (overflowChecks = false ∨ (gasUsed ≤ A.gasLimit enclosing ∧
          (A.gasLimit enclosing).toNat * 100 < UInt64.size)) →
        (create A overflowChecks self elapsed gasUsed enclosing).isOk := by
  have hcreated : ∀ call ∈ calls, Created A self deadline (A.gasLimit enclosing) call.elapsed
      call.gasUsed call.limits := fun call hcall => created hlaws hdeadline (hserved call hcall)
  refine ⟨?_, limits_pairwise hcreated hrun, ?_, ?_⟩
  · intro call hcall
    exact withinBudget_of_created (hcreated call hcall)
  · intro hfits
    exact limits_pairwise hcreated hrun
      (hrun.imp fun _ _ hfollows => remainingBlocks_mono hfollows.elapsed hfits)
  · intro elapsed gasUsed hlog
    exact create_isOk hdeadline hinterval hlog

/-! Three flashblocks: two intervals of the five there are, and the last second. -/

structure SampleLimits where
  gasLimit : UInt64
  deadline : Option Duration
  deriving DecidableEq

def sampleLimits : LimitsApi SampleLimits where
  deadline := SampleLimits.deadline
  gasLimit := SampleLimits.gasLimit
  withDeadline limits deadline := { limits with deadline := some deadline }
  withGasLimit limits gasLimit := { limits with gasLimit := gasLimit }

theorem sampleLimits_lawful : sampleLimits.Lawful where
  deadline_withDeadline _ _ := rfl
  gasLimit_withDeadline _ _ := rfl
  deadline_withGasLimit _ _ := rfl
  gasLimit_withGasLimit _ _ := rfl

def sampleCalls : List (Call SampleLimits) := [
  ⟨0, 0, ⟨20, some 2000000000⟩⟩,
  ⟨2000000000, 15, ⟨36, some 2000000000⟩⟩,
  ⟨9000000000, 36, ⟨100, some 1000000000⟩⟩]

theorem sampleCalls_budgets :
    (∀ call ∈ sampleCalls, WithinBudget sampleLimits ⟨2000000000⟩ 10000000000 100 call) ∧
      (sampleCalls.map fun call => sampleLimits.gasLimit call.limits).Pairwise (· ≤ ·) := by
  have hserved : ∀ call ∈ sampleCalls,
      Served sampleLimits true ⟨2000000000⟩ ⟨100, some 10000000000⟩ call := by
    simp only [sampleCalls, List.forall_mem_cons, List.not_mem_nil]
    exact ⟨rfl, rfl, rfl, fun _ hcall => hcall.elim⟩
  have hrun : sampleCalls.IsChain (Follows sampleLimits) := by
    refine .cons_cons ?_ (.cons_cons ?_ (.singleton _)) <;> constructor <;> decide
  have hbudgets := budgets sampleLimits_lawful rfl (by decide) hserved hrun
  exact ⟨hbudgets.1, hbudgets.2.2.1 (by decide)⟩

end WorldChain.Step.Limits
