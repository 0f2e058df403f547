import WorldChain.Library.Fallible
import WorldChain.Library.Runs

/-! Machine arithmetic on exact values: an operation faults if its result is not
in its type. The rules say under which condition a checked computation returns,
and what, up to whole runs of a machine. -/
namespace WorldChain.Library.Checked
open Fallible Runs

structure IntType where
  min : Int
  max : Int

def unsigned (size : Nat) : IntType := ⟨0, size - 1⟩

def signed (size : Nat) : IntType := ⟨-(size / 2 : Nat), (size / 2 : Nat) - 1⟩

abbrev u64 : IntType := unsigned UInt64.size

abbrev u128 : IntType := unsigned (UInt64.size * UInt64.size)

/-- Of a target with 64 bits. -/
abbrev usize : IntType := unsigned UInt64.size

abbrev i64 : IntType := signed UInt64.size

def IntType.Contains (type : IntType) (value : Int) : Prop := type.min ≤ value ∧ value ≤ type.max

instance (type : IntType) (value : Int) : Decidable (type.Contains value) :=
  inferInstanceAs (Decidable (type.min ≤ value ∧ value ≤ type.max))

inductive Operation
  | add
  | subtract
  | multiply
  | divide
  deriving DecidableEq

inductive Fault
  | overflow (operation : Operation)
  | divideByZero
  deriving DecidableEq

def IntType.fit (type : IntType) (operation : Operation) (exact : Int) : Except Fault Int :=
  if type.Contains exact then .ok exact else .error (.overflow operation)

def IntType.add (type : IntType) (a b : Int) : Except Fault Int := type.fit .add (a + b)

def IntType.sub (type : IntType) (a b : Int) : Except Fault Int := type.fit .subtract (a - b)

def IntType.mul (type : IntType) (a b : Int) : Except Fault Int := type.fit .multiply (a * b)

/-- Rounds towards zero. -/
def IntType.div (type : IntType) (a b : Int) : Except Fault Int :=
  if b = 0 then .error .divideByZero else type.fit .divide (a.tdiv b)

variable {ε α β : Type}

/-- The computation returns under this condition only, and then this value. -/
def Returns (x : Except ε α) (cond : Prop) (value : α) : Prop :=
  ∀ result, x = .ok result ↔ cond ∧ result = value

theorem Returns.ok_of {cond : Prop} (hcond : cond) (a : α) :
    Returns (.ok a : Except ε α) cond a := by
  intro result
  rw [Except.ok.injEq, and_iff_right hcond]
  exact eq_comm

theorem Returns.ok (a : α) : Returns (.ok a : Except ε α) True a := .ok_of trivial a

theorem Returns.isOk_iff {x : Except ε α} {cond : Prop} {value : α} (h : Returns x cond value) :
    x.isOk ↔ cond := by
  constructor
  · intro hok
    obtain ⟨result, hresult⟩ := exists_ok hok
    exact ((h result).mp hresult).1
  · intro hcond
    rw [(h value).mpr ⟨hcond, rfl⟩]
    rfl

theorem Returns.congr {x : Except ε α} {cond cond' : Prop} {value value' : α}
    (h : Returns x cond value) (hcond : cond ↔ cond') (hvalue : cond' → value = value') :
    Returns x cond' value' := by
  intro result
  rw [h result, hcond]
  apply and_congr_right
  intro hmet
  rw [hvalue hmet]

theorem Returns.bind {x : Except ε α} {f : α → Except ε β} {cond cond' : Prop} {a : α} {b : β}
    (hx : Returns x cond a) (hf : cond → Returns (f a) cond' b) :
    Returns (x >>= f) (cond ∧ cond') b := by
  intro result
  rw [bind_eq_ok, and_assoc]
  constructor
  · rintro ⟨a', ha', hresult⟩
    obtain ⟨hcond, rfl⟩ := (hx a').mp ha'
    exact ⟨hcond, (hf hcond result).mp hresult⟩
  · rintro ⟨hcond, hrest⟩
    exact ⟨a, (hx a).mpr ⟨hcond, rfl⟩, (hf hcond result).mpr hrest⟩

theorem Returns.map {x : Except ε α} {cond : Prop} {a : α} (h : Returns x cond a) (g : α → β) :
    Returns (x >>= fun a => .ok (g a)) cond (g a) :=
  (h.bind fun _ => .ok (g a)).congr (and_iff_left trivial) fun _ => rfl

theorem Returns.seq {x : Except ε α} {y : Except ε β} {cond cond' : Prop} {a : α} {b : β}
    (hx : Returns x cond a) (hy : Returns y cond' b) :
    Returns (x >>= fun _ => y) (cond ∧ cond') b :=
  hx.bind fun _ => hy

theorem Returns.ite {p : Prop} [Decidable p] {x y : Except ε α} {cond cond' : Prop} {a b : α}
    (hx : p → Returns x cond a) (hy : ¬p → Returns y cond' b) :
    Returns (if p then x else y) (if p then cond else cond') (if p then a else b) := by
  split
  · exact hx ‹p›
  · exact hy ‹¬p›

theorem fit_returns (type : IntType) (operation : Operation) (exact : Int) :
    Returns (type.fit operation exact) (type.Contains exact) exact := by
  intro result
  unfold IntType.fit
  split
  · rename_i hcontains
    simp [hcontains, eq_comm]
  · rename_i hcontains
    simp [hcontains]

theorem contains_unsigned (size n : Nat) : (unsigned size).Contains n ↔ n < size := by
  simp only [IntType.Contains, unsigned]
  omega

theorem add_one {size n : Nat} (h : n + 1 < size) : (unsigned size).add n 1 = .ok (n + 1 : Nat) :=
  if_pos ((contains_unsigned size (n + 1)).mpr h)

theorem mul_nat (size a b : Nat) :
    (unsigned size).mul a b =
      if a * b < size then .ok (a * b : Nat) else .error (.overflow .multiply) := by
  unfold IntType.mul IntType.fit
  rw [← Int.natCast_mul]
  simp only [contains_unsigned]

theorem div_nat {size a b : Nat} (ha : a < size) :
    (unsigned size).div a b = if b = 0 then .error .divideByZero else .ok (a / b : Nat) := by
  unfold IntType.div
  by_cases hzero : b = 0
  · rw [if_pos hzero, if_pos (by simp [hzero])]
  · have hquotient : (unsigned size).Contains (a / b : Nat) :=
      (contains_unsigned size (a / b)).mpr (Nat.lt_of_le_of_lt (Nat.div_le_self a b) ha)
    rw [if_neg hzero, if_neg (by simpa using hzero), Int.ofNat_tdiv]
    exact if_pos hquotient

/-! Runs of a machine whose steps are checked. -/

variable {σ ι ω : Type}

def execChecked (step : σ → ι → Except ε (σ × List ω)) (s : σ) : List ι → Except ε (σ × List ω)
  | [] => .ok (s, [])
  | i :: rest => do
      let next ← step s i
      let last ← execChecked step next.1 rest
      return (last.1, next.2 ++ last.2)

theorem meets_cons {step : σ → ι → σ × List ω} {cond : σ → ι → Prop} {s : σ} {i : ι}
    {rest : List ι} :
    Meets step (fun reached => cond reached.1) s (i :: rest) ↔
      cond s i ∧ Meets step (fun reached => cond reached.1) (step s i).1 rest := by
  constructor
  · intro h
    refine ⟨h [] i rest rfl, ?_⟩
    rintro before j after rfl
    exact h (i :: before) j after rfl
  · rintro ⟨hfirst, hrest⟩ before j after heq
    cases before with
    | nil =>
        cases heq
        exact hfirst
    | cons i' before =>
        cases heq
        exact hrest before j after rfl

/-- A checked run goes through exactly if each of its steps does, and then it is
the run of the machine that is checked. -/
theorem execChecked_returns {checked : σ → ι → Except ε (σ × List ω)}
    {step : σ → ι → σ × List ω} {cond : σ → ι → Prop} {inv : σ → Prop}
    (hkeeps : ∀ s i, inv s → inv (step s i).1)
    (hstep : ∀ s i, inv s → Returns (checked s i) (cond s i) (step s i)) {s : σ} (hstart : inv s)
    (inputs : List ι) :
    Returns (execChecked checked s inputs)
      (Meets step (fun reached => cond reached.1) s inputs) (exec step s inputs) := by
  induction inputs generalizing s with
  | nil => exact .ok_of .nil _
  | cons i rest ih =>
      have hrest := ih (hkeeps s i hstart)
      apply ((hstep s i hstart).bind fun _ => hrest.map _).congr meets_cons.symm
      intro _
      rfl

end WorldChain.Library.Checked
