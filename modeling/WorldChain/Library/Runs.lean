import Mathlib.Data.List.Induction

/-! Runs of a deterministic machine that takes one input at a time and produces
a list of outputs at each step. -/
namespace WorldChain.Library.Runs

variable {σ ι ω : Type}

/-- Run the machine over a list of inputs, collecting its outputs in order. -/
def exec (step : σ → ι → σ × List ω) (s : σ) : List ι → σ × List ω
  | [] => (s, [])
  | i :: rest =>
      let next := exec step (step s i).1 rest
      (next.1, (step s i).2 ++ next.2)

variable {step : σ → ι → σ × List ω}

@[simp] theorem exec_nil (s : σ) : exec step s [] = (s, []) := rfl

theorem exec_cons (s : σ) (i : ι) (rest : List ι) :
    exec step s (i :: rest) =
      ((exec step (step s i).1 rest).1, (step s i).2 ++ (exec step (step s i).1 rest).2) := rfl

theorem exec_append (s : σ) (left right : List ι) :
    exec step s (left ++ right) =
      ((exec step (exec step s left).1 right).1,
        (exec step s left).2 ++ (exec step (exec step s left).1 right).2) := by
  induction left generalizing s with
  | nil => rfl
  | cons i rest ih => simp only [List.cons_append, exec_cons, ih, List.append_assoc]

theorem exec_concat (s : σ) (inputs : List ι) (i : ι) :
    exec step s (inputs ++ [i]) =
      ((step (exec step s inputs).1 i).1,
        (exec step s inputs).2 ++ (step (exec step s inputs).1 i).2) := by
  simp [exec_append, exec_cons]

def Reachable (step : σ → ι → σ × List ω) (start s : σ) : Prop :=
  ∃ inputs, (exec step start inputs).1 = s

/-- Every step of the run meets a condition on the state and outputs before it. -/
def Meets (step : σ → ι → σ × List ω) (cond : σ × List ω → ι → Prop) (start : σ)
    (inputs : List ι) : Prop :=
  ∀ before i after, inputs = before ++ i :: after → cond (exec step start before) i

theorem Meets.of_append {cond : σ × List ω → ι → Prop} {start : σ} {left right : List ι}
    (h : Meets step cond start (left ++ right)) : Meets step cond start left := by
  intro before i after heq
  exact h before i (after ++ right) (by rw [heq]; simp)

theorem Meets.nil {cond : σ × List ω → ι → Prop} {start : σ} : Meets step cond start [] := by
  intro before i after heq
  simp at heq

theorem Meets.concat {cond : σ × List ω → ι → Prop} {start : σ} {inputs : List ι} {i : ι}
    (h : Meets step cond start inputs) (hi : cond (exec step start inputs) i) :
    Meets step cond start (inputs ++ [i]) := by
  intro before j after heq
  rcases List.eq_nil_or_concat after with rfl | ⟨rest, last, rfl⟩
  · obtain ⟨rfl, hlast⟩ := List.append_inj' heq rfl
    rwa [← (List.cons.inj hlast).1]
  · have hinit : inputs ++ [i] = (before ++ j :: rest) ++ [last] := by
      rw [heq]
      simp
    exact h before j rest (List.append_inj' hinit rfl).1

theorem Meets.of_forall {cond : σ × List ω → ι → Prop} {start : σ} {inputs : List ι}
    (h : ∀ i ∈ inputs, ∀ r, cond r i) : Meets step cond start inputs := by
  intro before i after heq
  apply h
  rw [heq]
  exact List.mem_append_right _ List.mem_cons_self

theorem Meets.append {cond : σ × List ω → ι → Prop} {start : σ} {left right : List ι}
    (h : Meets step cond start left) (hright : ∀ i ∈ right, ∀ r, cond r i) :
    Meets step cond start (left ++ right) := by
  induction right using List.reverseRecOn with
  | nil => rwa [List.append_nil]
  | append_singleton right i ih =>
      rw [← List.append_assoc]
      apply (ih fun j hj => hright j (List.mem_append_left _ hj)).concat
      exact hright i (List.mem_append_right _ List.mem_cons_self) _

theorem Meets.last {cond : σ × List ω → ι → Prop} {start : σ} {inputs : List ι} {i : ι}
    (h : Meets step cond start (inputs ++ [i])) : cond (exec step start inputs) i :=
  h inputs i [] rfl

/-- What holds at the start and is preserved by every step that meets the
condition holds at the end of every run whose steps all meet it. -/
theorem exec_invariant {cond : σ × List ω → ι → Prop} (inv : σ × List ω → Prop) {start : σ}
    (hstart : inv (start, []))
    (hstep : ∀ r i, inv r → cond r i → inv ((step r.1 i).1, r.2 ++ (step r.1 i).2))
    {inputs : List ι} (hmeets : Meets step cond start inputs) :
    inv (exec step start inputs) := by
  induction inputs using List.reverseRecOn with
  | nil => exact hstart
  | append_singleton inputs i ih =>
      rw [exec_concat]
      exact hstep _ i (ih hmeets.of_append) hmeets.last

theorem reachable_invariant {inv : σ → Prop} {start s : σ} (hstart : inv start)
    (hstep : ∀ s i, inv s → inv (step s i).1) (hreach : Reachable step start s) : inv s := by
  obtain ⟨inputs, rfl⟩ := hreach
  have hmeets : Meets step (fun _ _ => True) start inputs := fun _ _ _ _ => trivial
  exact exec_invariant (fun r => inv r.1) hstart (fun r i h _ => hstep r.1 i h) hmeets

/-- If the outputs of a step are good exactly when it meets the condition, then so
are those of a run; only states that keep an invariant have to be considered. -/
theorem outputs_iff_meets {cond : σ × List ω → ι → Prop} {good : ω → Prop} {allowed : ι → Prop}
    {inv : σ → Prop} {start : σ} (hstart : inv start)
    (hkeeps : ∀ s i, inv s → allowed i → inv (step s i).1)
    (hstep : ∀ r i, inv r.1 → ((∀ o ∈ (step r.1 i).2, good o) ↔ cond r i))
    {inputs : List ι} (hallowed : ∀ i ∈ inputs, allowed i) :
    (∀ o ∈ (exec step start inputs).2, good o) ↔ Meets step cond start inputs := by
  have hboth : inv (exec step start inputs).1 ∧
      ((∀ o ∈ (exec step start inputs).2, good o) ↔ Meets step cond start inputs) := by
    induction inputs using List.reverseRecOn with
    | nil => exact ⟨hstart, by simp [Meets.nil]⟩
    | append_singleton inputs i ih =>
        obtain ⟨hinv, hiff⟩ := ih fun j hj => hallowed j (List.mem_append_left _ hj)
        have hi := hallowed i (by simp)
        rw [exec_concat]
        refine ⟨hkeeps _ i hinv hi, ?_⟩
        rw [List.forall_mem_append, hiff, hstep _ i hinv]
        constructor
        · rintro ⟨hmeets, hcond⟩
          exact hmeets.concat hcond
        · intro hmeets
          exact ⟨hmeets.of_append, hmeets.last⟩
  exact hboth.2

theorem exec_replicate {s : σ} {inputs : List ι} (h : (exec step s inputs).1 = s) (k : Nat) :
    exec step s (List.replicate k inputs).flatten =
      (s, (List.replicate k (exec step s inputs).2).flatten) := by
  induction k with
  | zero => rfl
  | succ k ih =>
      rw [List.replicate_succ, List.replicate_succ, List.flatten_cons, List.flatten_cons,
        exec_append, h, ih]

/-! Steps that read and write no more than a view of the state. -/

variable {γ : Type} {view : σ → γ}

end WorldChain.Library.Runs
