import WorldChain.Library.Checked
import WorldChain.Step.Limits

/-! `FlashblockLimits::create` with all of its arithmetic checked, that of the
line it logs included. -/
namespace WorldChain.Step.Arithmetic
open Library.Fallible Library.Checked Deps.Reth Limits

def panicOf : Fault → Failure
  | .overflow .add => .panic "attempt to add with overflow"
  | .overflow .subtract => .panic "attempt to subtract with overflow"
  | .overflow .multiply => .panic "attempt to multiply with overflow"
  | .overflow .divide => .panic "attempt to divide with overflow"
  | .divideByZero => .panic "attempt to divide by zero"

def orFault {α : Type} : Except Fault α → Except Failure α := Except.mapError panicOf

def percent (total amount : UInt64) : Except Fault Int := do
  let hundredfold ← u64.mul amount.toNat 100
  u64.div hundredfold total.toNat

variable {L : Type} (A : LimitsApi L)

def checkedCreate (self : FlashblockLimits) (elapsed : Duration) (gasUsed : UInt64)
    (enclosing : L) : Except Failure L := do
  let payloadDeadline ← orPanic "Flashblock limit require its enclosing scope to have a deadline"
    (A.deadline enclosing)
  let remainingTime := payloadDeadline - elapsed
  let quotient ← orFault (u128.div (asMillis remainingTime) (asMillis self.interval))
  -- `as u64`
  let remainingBlocks : UInt64 := .ofInt quotient
  if remainingBlocks ≤ 1 then return A.withDeadline enclosing remainingTime
  else
    let remainingGas := saturatingSub (A.gasLimit enclosing) gasUsed
    if remainingGas = 0 then return A.withDeadline enclosing remainingTime
    else
      let share ← orFault (u64.div remainingGas.toNat remainingBlocks.toNat)
      let gasPerBlock : UInt64 := .ofInt share
      let nextBlockGasLimit := saturatingAdd gasUsed gasPerBlock
      let _percentages ← orFault ([gasUsed, remainingGas, nextBlockGasLimit, gasPerBlock].mapM
        (percent (A.gasLimit enclosing)))
      return A.withGasLimit (A.withDeadline enclosing self.interval) nextBlockGasLimit

def durationEnd : Duration := UInt64.size * 1000000000

variable {A} {self : FlashblockLimits} {enclosing : L} {deadline : Duration}

theorem ofInt_natCast (n : Nat) : UInt64.ofInt n = UInt64.ofNat n := by
  have hcast : ((n : Int) % 2 ^ 64).toNat = n % 2 ^ 64 := by omega
  rw [UInt64.ofInt, hcast, UInt64.ofNat_mod_size]

theorem asMillis_lt {duration : Duration} (h : duration < durationEnd) :
    asMillis duration < UInt64.size * UInt64.size := by
  apply Nat.lt_of_le_of_lt (Nat.div_le_self duration 1000000)
  exact Nat.lt_trans h (by decide)

theorem percent_eq {total : UInt64} (htotal : total.toNat ≠ 0) (amount : UInt64) :
    percent total amount =
      if amount.toNat * 100 < UInt64.size then .ok (amount.toNat * 100 / total.toNat : Nat)
      else .error (.overflow .multiply) := by
  have hmul := mul_nat UInt64.size amount.toNat 100
  unfold percent
  split
  · rename_i hfits
    rw [if_pos hfits] at hmul
    have hdiv := @div_nat UInt64.size (amount.toNat * 100) total.toNat hfits
    rw [if_neg htotal] at hdiv
    exact (congrArg (· >>= _) hmul).trans hdiv
  · rename_i hlarge
    rw [if_neg hlarge] at hmul
    exact congrArg (· >>= _) hmul

theorem mapM_percent_eq {total : UInt64} (htotal : total.toNat ≠ 0) (amounts : List UInt64) :
    amounts.mapM (percent total) =
      if logsWithoutOverflow amounts then
        .ok (amounts.map fun amount => (amount.toNat * 100 / total.toNat : Nat))
      else .error (.overflow .multiply) := by
  induction amounts with
  | nil => rfl
  | cons amount rest ih =>
      have hall : logsWithoutOverflow (amount :: rest) =
          (decide (amount.toNat * 100 < UInt64.size) && logsWithoutOverflow rest) := rfl
      rw [List.mapM_cons, percent_eq htotal, ih, hall]
      by_cases hfits : amount.toNat * 100 < UInt64.size
      · rw [if_pos hfits, decide_eq_true hfits, Bool.true_and]
        cases logsWithoutOverflow rest <;> rfl
      · rw [if_neg hfits, decide_eq_false hfits, Bool.false_and]
        rfl

/-- All of the arithmetic that can fault is that which `create` has faults for. -/
theorem checkedCreate_eq (hduration : ∀ deadline ∈ A.deadline enclosing, deadline < durationEnd)
    (elapsed : Duration) (gasUsed : UInt64) :
    checkedCreate A self elapsed gasUsed enclosing =
      create A true self elapsed gasUsed enclosing := by
  unfold checkedCreate create
  cases hdeadline : A.deadline enclosing with
  | none => rfl
  | some deadline =>
      have htime : asMillis (deadline - elapsed) < UInt64.size * UInt64.size :=
        asMillis_lt (Nat.lt_of_le_of_lt (Nat.sub_le _ _) (hduration deadline hdeadline))
      simp only [orPanic, bind, Except.bind, div_nat htime]
      by_cases hzero : asMillis self.interval = 0
      · simp only [if_pos hzero]
        rfl
      have hblocks : UInt64.ofInt (asMillis (deadline - elapsed) / asMillis self.interval : Nat) =
          remainingBlocks self (deadline - elapsed) := ofInt_natCast _
      simp only [if_neg hzero, orFault, Except.mapError, hblocks]
      split
      · rfl
      rename_i hmore
      split
      · rfl
      rename_i hsome
      have hpos : (remainingBlocks self (deadline - elapsed)).toNat ≠ 0 :=
        Nat.ne_zero_of_lt (UInt64.lt_iff_toNat_lt.mp (UInt64.not_le.mp hmore))
      have htotal : (A.gasLimit enclosing).toNat ≠ 0 :=
        Nat.ne_zero_of_lt (UInt64.lt_iff_toNat_lt.mp (lt_of_saturatingSub_ne_zero hsome))
      have hshare := @div_nat UInt64.size (saturatingSub (A.gasLimit enclosing) gasUsed).toNat
        (remainingBlocks self (deadline - elapsed)).toNat (UInt64.toNat_lt_size _)
      rw [if_neg hpos, ← UInt64.toNat_div] at hshare
      simp only [hshare, ofInt_natCast, UInt64.ofNat_toNat, mapM_percent_eq htotal]
      generalize logsWithoutOverflow _ = logs
      cases logs <;> rfl

/-- On the inputs alone: the interval has a millisecond, and if there is time for
more than one interval and gas for it, the gas that is left and the used gas with
a share of it can be multiplied by 100. -/
def InRange (interval deadline elapsed : Duration) (gasLimit gasUsed : Nat) : Prop :=
  let blocks := (deadline - elapsed) / 1000000 / (interval / 1000000) % UInt64.size
  1000000 ≤ interval ∧ (blocks ≤ 1 ∨ gasLimit ≤ gasUsed ∨
    (gasLimit - gasUsed) * 100 < UInt64.size ∧
      (gasUsed + (gasLimit - gasUsed) / blocks) * 100 < UInt64.size)

theorem toNat_remainingBlocks (self : FlashblockLimits) (remainingTime : Duration) :
    (remainingBlocks self remainingTime).toNat =
      remainingTime / 1000000 / (self.interval / 1000000) % UInt64.size := UInt64.toNat_ofNat'

theorem create_isOk_iff (hdeadline : A.deadline enclosing = some deadline) (elapsed : Duration)
    (gasUsed : UInt64) :
    (create A true self elapsed gasUsed enclosing).isOk ↔
      InRange self.interval deadline elapsed (A.gasLimit enclosing).toNat gasUsed.toNat := by
  have hspent_iff : saturatingSub (A.gasLimit enclosing) gasUsed = 0 ↔
      (A.gasLimit enclosing).toNat ≤ gasUsed.toNat :=
    (saturatingSub_eq_zero_iff _ _).trans UInt64.le_iff_toNat_le
  unfold create InRange
  rw [hdeadline, ← toNat_remainingBlocks, ← asMillis_ne_zero_iff]
  simp only [orPanic, bind, Except.bind]
  by_cases hzero : asMillis self.interval = 0
  · rw [if_pos hzero]
    exact iff_of_false Bool.false_ne_true fun h => h.1 hzero
  rw [if_neg hzero]
  split
  · rename_i hlast
    exact iff_of_true rfl ⟨hzero, .inl (UInt64.le_iff_toNat_le.mp hlast)⟩
  rename_i hmore
  split
  · rename_i hnone
    exact iff_of_true rfl ⟨hzero, .inr (.inl (hspent_iff.mp hnone))⟩
  rename_i hsome
  have hblocks : ¬(remainingBlocks self (deadline - elapsed)).toNat ≤ 1 := fun hlast =>
    hmore (UInt64.le_iff_toNat_le.mpr hlast)
  have hgas : ¬(A.gasLimit enclosing).toNat ≤ gasUsed.toNat := fun hspent =>
    hsome (hspent_iff.mpr hspent)
  have hlogs := logsWithoutOverflow_iff (lt_of_saturatingSub_ne_zero hsome)
    (remainingBlocks self (deadline - elapsed))
  rw [and_iff_right hzero, or_iff_right hblocks, or_iff_right hgas, ← hlogs]
  cases logsWithoutOverflow _ <;> simp [Except.isOk, Except.toBool, pure, Except.pure]

/-- Exactly when no operation of a call faults. -/
theorem checkedCreate_isOk_iff (hdeadline : A.deadline enclosing = some deadline)
    (hduration : deadline < durationEnd) (elapsed : Duration) (gasUsed : UInt64) :
    (checkedCreate A self elapsed gasUsed enclosing).isOk ↔
      InRange self.interval deadline elapsed (A.gasLimit enclosing).toNat gasUsed.toNat := by
  rw [checkedCreate_eq, create_isOk_iff hdeadline]
  intro other hother
  rw [hdeadline] at hother
  cases hother
  exact hduration

theorem checkedCreate_isOk_two_intervals :
    (checkedCreate sampleLimits ⟨2000000000⟩ 6000000000 15 ⟨100, some 10000000000⟩).isOk ↔
      InRange 2000000000 10000000000 6000000000 100 15 :=
  checkedCreate_isOk_iff rfl (by decide) 6000000000 15

/-- An interval below a millisecond is divided by, and a gas limit near the end of its
type is multiplied by 100. -/
theorem create_faults :
    checkedCreate sampleLimits ⟨999999⟩ 0 0 ⟨30000000, some 2000000000⟩ =
        .error (.panic "attempt to divide by zero") ∧
      checkedCreate sampleLimits ⟨200000000⟩ 0 0 ⟨18446744073709551615, some 2000000000⟩ =
        .error (.panic "attempt to multiply with overflow") ∧
      ¬∀ (interval deadline elapsed : Duration) (gasUsed : UInt64) (enclosing : SampleLimits),
        interval < durationEnd → deadline < durationEnd → enclosing.deadline = some deadline →
          (checkedCreate sampleLimits ⟨interval⟩ elapsed gasUsed enclosing).isOk := by
  refine ⟨by decide, by decide, ?_⟩
  intro hall
  have hok := hall 999999 2000000000 0 0 ⟨30000000, some 2000000000⟩ (by decide) (by decide) rfl
  exact absurd hok (by decide)

end WorldChain.Step.Arithmetic
