import WorldChain.Step.Job

/-! The payload jobs of the service share one step, whose counter and base are
set and reset by whichever job calls it. -/
namespace WorldChain.Step.Overlap
open Library.Runs Wire.Primitives Deps.Revm Deps.Reth Deps.Calls Deps.Concrete
open Executor.Process Publish SameHeader Job

inductive Phase
  | waiting
  | running
  | done
  deriving DecidableEq

structure Serving (Tx : Type) where
  entries : List (Entry Tx) := []
  phase : Phase := .waiting

structure Service (J Tx : Type) where
  step : PublishFlashblock Tx
  jobs : J → Serving Tx

/-- `step` finds the executor in whatever state the node has brought it to. -/
inductive JobCall (Tx : Type)
  | beforeJob
  | stage (entry : Entry Tx)
  | step (p2p : FlashblocksStateExecutor Tx) (now : Int)
  | afterJob

def JobCall.isStep {Tx : Type} : JobCall Tx → Bool
  | .step _ _ => true
  | .beforeJob | .stage _ | .afterJob => false

variable {J Tx Db Core : Type} [DecidableEq J]

def Service.update (self : Service J Tx) (j : J) (step : PublishFlashblock Tx)
    (serving : Serving Tx) : Service J Tx :=
  ⟨step, Function.update self.jobs j serving⟩

def serve (X : Crates Tx Db Core) (R : CheckpointExt Tx) (debugAssertions : Bool)
    (ctx : J → StepContext Tx Db) (self : Service J Tx) :
    J × JobCall Tx → Service J Tx × List (J × Published Tx)
  | (j, .beforeJob) =>
      (self.update j (beforeJob self.step (ctx j)) { self.jobs j with phase := .running }, [])
  | (j, .stage entry) =>
      (self.update j self.step
        { self.jobs j with entries := (self.jobs j).entries ++ [entry] }, [])
  | (j, .step p2p now) =>
      let done := act X R debugAssertions (ctx j) ⟨{ self.step with p2p := p2p },
        (self.jobs j).entries⟩ (.publish now)
      (self.update j done.1.step { self.jobs j with entries := done.1.entries },
        done.2.map fun published => (j, published))
  | (j, .afterJob) =>
      (self.update j (afterJob self.step) { self.jobs j with phase := .done }, [])

def idle (p2p : FlashblocksStateExecutor Tx) : Service J Tx := ⟨⟨p2p, 0, none⟩, fun _ => {}⟩

def JobCall.phase {Tx : Type} : JobCall Tx → Phase
  | .beforeJob => .waiting
  | .stage _ | .step _ _ | .afterJob => .running

def InOrder (reached : Service J Tx × List (J × Published Tx)) (call : J × JobCall Tx) : Prop :=
  (reached.1.jobs call.1).phase = call.2.phase

/-- Whose turn it is to call `step`, and whether the counter is known to be zero. -/
structure Turn (J : Type) where
  owner : Option J := none
  clean : Bool := true

/-- A turn begins with `before_job` on a clean counter and ends with the next
call of another job to `before_job`, `step` or `after_job`. -/
def Turn.after (turn : Turn J) : J × JobCall Tx → Turn J
  | (j, .beforeJob) => { turn with owner := if turn.clean then some j else none }
  | (_, .stage _) => turn
  | (j, .step _ _) => ⟨if turn.owner = some j then some j else none, false⟩
  | (_, .afterJob) => ⟨none, true⟩

def inTurn : Turn J → List (J × JobCall Tx) → Bool
  | _, [] => true
  | turn, call :: rest =>
      (!call.2.isStep || turn.owner = some call.1) && inTurn (turn.after call) rest

theorem inTurn_concat (turn : Turn J) (calls : List (J × JobCall Tx)) (call : J × JobCall Tx) :
    inTurn turn (calls ++ [call]) = true ↔ inTurn turn calls = true ∧
      (call.2.isStep = true → (calls.foldl Turn.after turn).owner = some call.1) := by
  induction calls generalizing turn with
  | nil => cases hstep : call.2.isStep <;> simp [inTurn, hstep]
  | cons first rest ih =>
      rw [List.cons_append, inTurn, inTurn, Bool.and_eq_true, Bool.and_eq_true, ih, and_assoc]
      rfl

/-! A job and the others. -/

def own (j : J) (calls : List (J × JobCall Tx)) : List (J × JobCall Tx) :=
  calls.filter fun call => call.1 = j

def publishedIn (j : J) (published : List (J × Published Tx)) : List (J × Published Tx) :=
  published.filter fun p => p.1 = j

variable {X : Crates Tx Db Core} {R : CheckpointExt Tx} {debugAssertions : Bool}
  {ctx : J → StepContext Tx Db}

theorem serve_others {self : Service J Tx} {j : J} {call : J × JobCall Tx} (h : call.1 ≠ j) :
    (serve X R debugAssertions ctx self call).1.jobs j = self.jobs j ∧
      publishedIn j (serve X R debugAssertions ctx self call).2 = [] := by
  obtain ⟨i, call⟩ := call
  have hne : j ≠ i := fun heq => h heq.symm
  cases call with
  | beforeJob => exact ⟨Function.update_of_ne hne _ _, rfl⟩
  | stage entry => exact ⟨Function.update_of_ne hne _ _, rfl⟩
  | afterJob => exact ⟨Function.update_of_ne hne _ _, rfl⟩
  | step p2p now =>
      refine ⟨Function.update_of_ne hne _ _, ?_⟩
      apply List.filter_eq_nil_iff.mpr
      intro p hp
      obtain ⟨published, _, rfl⟩ := List.mem_map.mp hp
      simpa using h

/-- Counter and base, which is what the shared step adds to a job. -/
def SameStep (left right : PublishFlashblock Tx) : Prop :=
  left.blockNumber = right.blockNumber ∧ left.blockBase = right.blockBase

theorem sameStep_p2p {left right : PublishFlashblock Tx} (h : SameStep left right)
    (p2p : FlashblocksStateExecutor Tx) : { left with p2p := p2p } = { right with p2p := p2p } := by
  rw [h.1, h.2]

/-- Where the service stands with a job, beside the service that serves it alone. -/
structure Alongside (j : J) (turn : Turn J) (shared alone : Service J Tx × List (J × Published Tx)) :
    Prop where
  serving : shared.1.jobs j = alone.1.jobs j
  published : publishedIn j shared.2 = alone.2
  owner : turn.owner = some j → SameStep shared.1.step alone.1.step
  clean : turn.clean = true → shared.1.step.blockNumber = 0
  waiting : (alone.1.jobs j).phase = .waiting → alone.1.step.blockNumber = 0

theorem alongside_others {j : J} {turn : Turn J} {shared alone : Service J Tx × List (J × Published Tx)}
    (h : Alongside j turn shared alone) {call : J × JobCall Tx} (hne : call.1 ≠ j) :
    Alongside j (turn.after call) ((serve X R debugAssertions ctx shared.1 call).1,
      shared.2 ++ (serve X R debugAssertions ctx shared.1 call).2) alone := by
  have hothers : (serve X R debugAssertions ctx shared.1 call).1.jobs j = shared.1.jobs j ∧
      publishedIn j (serve X R debugAssertions ctx shared.1 call).2 = [] := serve_others hne
  obtain ⟨hjobs, hnone⟩ := hothers
  refine ⟨hjobs.trans h.serving, ?_, ?_, ?_, h.waiting⟩
  · rw [publishedIn, List.filter_append]
    exact (congrArg (publishedIn j shared.2 ++ ·) hnone).trans ((List.append_nil _).trans h.published)
  all_goals
    obtain ⟨i, call⟩ := call
    have hother : some i ≠ some j := fun heq => hne (Option.some.inj heq)
  · intro howner
    cases call with
    | beforeJob =>
        simp only [Turn.after] at howner
        split at howner
        · exact absurd howner hother
        · cases howner
    | stage entry => exact h.owner howner
    | step p2p now =>
        simp only [Turn.after] at howner
        split at howner
        · exact absurd howner hother
        · cases howner
    | afterJob => cases howner
  · intro hclean
    cases call with
    | beforeJob => exact h.clean hclean
    | stage entry => exact h.clean hclean
    | step p2p now => cases hclean
    | afterJob => rfl

theorem alongside_own {j : J} {turn : Turn J} {shared alone : Service J Tx × List (J × Published Tx)}
    (h : Alongside j turn shared alone) {call : J × JobCall Tx} (heq : call.1 = j)
    (horder : InOrder shared call) (hturn : call.2.isStep = true → turn.owner = some call.1) :
    Alongside j (turn.after call) ((serve X R debugAssertions ctx shared.1 call).1,
      shared.2 ++ (serve X R debugAssertions ctx shared.1 call).2)
      ((serve X R debugAssertions ctx alone.1 call).1,
        alone.2 ++ (serve X R debugAssertions ctx alone.1 call).2) := by
  obtain ⟨i, call⟩ := call
  cases heq
  have hserving : shared.1.jobs i = alone.1.jobs i := h.serving
  have hphase : (alone.1.jobs i).phase = call.phase := by
    rw [← hserving]
    exact horder
  cases call with
  | beforeJob =>
      refine ⟨?_, ?_, ?_, h.clean, ?_⟩
      · simp [serve, Service.update, hserving]
      · simp only [serve, List.append_nil]
        exact h.published
      · intro howner
        simp only [Turn.after] at howner
        split at howner
        · rename_i hclean
          exact ⟨(h.clean hclean).trans (h.waiting hphase).symm, rfl⟩
        · cases howner
      · intro hwaiting
        simp [serve, Service.update] at hwaiting
  | stage entry =>
      refine ⟨?_, ?_, h.owner, h.clean, ?_⟩
      · simp [serve, Service.update, hserving]
      · simp only [serve, List.append_nil]
        exact h.published
      · intro hwaiting
        simp [serve, Service.update, hphase, JobCall.phase] at hwaiting
  | step p2p now =>
      have hsame := h.owner (hturn rfl)
      have hdone : act X R debugAssertions (ctx i) ⟨{ shared.1.step with p2p := p2p },
          (shared.1.jobs i).entries⟩ (.publish now) =
          act X R debugAssertions (ctx i) ⟨{ alone.1.step with p2p := p2p },
            (alone.1.jobs i).entries⟩ (.publish now) := by
        rw [sameStep_p2p hsame p2p, hserving]
      refine ⟨?_, ?_, ?_, (fun hclean => nomatch hclean), ?_⟩
      · simp only [serve, Service.update, Function.update_self, hdone]
        rw [hserving]
      · simp only [serve, hdone]
        rw [publishedIn, List.filter_append]
        apply congr (congrArg _ h.published)
        apply List.filter_eq_self.mpr
        intro p hp
        obtain ⟨published, _, rfl⟩ := List.mem_map.mp hp
        simp
      · intro _
        simp only [serve, Service.update, hdone]
        exact ⟨rfl, rfl⟩
      · intro hwaiting
        simp [serve, Service.update, hphase, JobCall.phase] at hwaiting
  | afterJob =>
      refine ⟨?_, ?_, (fun howner => nomatch howner), fun _ => rfl, fun _ => rfl⟩
      · simp [serve, Service.update, hserving]
      · simp only [serve, List.append_nil]
        exact h.published

theorem alongside_run {p2p : FlashblocksStateExecutor Tx} {calls : List (J × JobCall Tx)}
    (horder : Meets (serve X R debugAssertions ctx) InOrder (idle p2p) calls)
    (hturn : inTurn {} calls = true) (j : J) :
    Alongside j (calls.foldl Turn.after {}) (exec (serve X R debugAssertions ctx) (idle p2p) calls)
      (exec (serve X R debugAssertions ctx) (idle p2p) (own j calls)) := by
  induction calls using List.reverseRecOn with
  | nil => exact ⟨rfl, rfl, fun _ => ⟨rfl, rfl⟩, fun _ => rfl, fun _ => rfl⟩
  | append_singleton calls call ih =>
      obtain ⟨hbefore, hlast⟩ := (inTurn_concat {} calls call).mp hturn
      have halong := ih horder.of_append hbefore
      rw [List.foldl_append, List.foldl_cons, List.foldl_nil, exec_concat]
      by_cases heq : call.1 = j
      · have hown : own j (calls ++ [call]) = own j calls ++ [call] := by simp [own, heq]
        rw [hown, exec_concat]
        exact alongside_own halong heq horder.last hlast
      · have hown : own j (calls ++ [call]) = own j calls := by simp [own, heq]
        rw [hown]
        exact alongside_others halong heq

/-- While every step is made in its job's turn, each job publishes what it
publishes alone. -/
theorem jobs_publish_their_own {p2p : FlashblocksStateExecutor Tx} {calls : List (J × JobCall Tx)}
    (horder : Meets (serve X R debugAssertions ctx) InOrder (idle p2p) calls)
    (hturn : inTurn {} calls = true) (j : J) :
    publishedIn j (exec (serve X R debugAssertions ctx) (idle p2p) calls).2 =
      (exec (serve X R debugAssertions ctx) (idle p2p) (own j calls)).2 :=
  (alongside_run horder hturn j).published

/-! Two jobs on the sample chain, one after the other and one inside the other. -/

def sampleJobs : Bool → StepContext SampleTx SampleDb
  | false => sampleJob
  | true => { sampleJob with block := { sampleBlock with payloadId := 2, timestamp := 14 } }

def serveSample : Service Bool SampleTx → Bool × JobCall SampleTx →
    Service Bool SampleTx × List (Bool × Published SampleTx) :=
  serve sample sampleExt false sampleJobs

def oneAfterTheOther : List (Bool × JobCall SampleTx) :=
  [] ++ [(false, .beforeJob)] ++ [(false, .step (.new none) 0)] ++ [(false, .afterJob)] ++
    [(true, .beforeJob)] ++ [(true, .step (.new none) 1)]

theorem jobs_publish_their_own_one_after_the_other :
    publishedIn true (exec serveSample (idle (.new none)) oneAfterTheOther).2 =
      (exec serveSample (idle (.new none))
        [(true, .beforeJob), (true, .step (.new none) 1)]).2 := by
  have horder : Meets serveSample InOrder (idle (.new none)) oneAfterTheOther := by
    refine ((((Meets.nil.concat ?_).concat ?_).concat ?_).concat ?_).concat ?_
    all_goals rfl
  exact jobs_publish_their_own horder rfl true

def overlapping : List (Bool × JobCall SampleTx) :=
  [] ++ [(false, .beforeJob)] ++ [(true, .beforeJob)] ++ [(false, .step (.new none) 0)]

def StepAccepted (reached : Service Bool SampleTx × List (Bool × Published SampleTx))
    (call : Bool × JobCall SampleTx) : Prop :=
  call.2.isStep = true → (serveSample reached.1 call).2 ≠ []

def baseTimestamps (published : List (Bool × Published SampleTx)) : List (Option UInt64) :=
  published.map fun p => p.2.flashblock.base.map (·.timestamp)

/-- The first job publishes under the base of the second. -/
theorem jobs_interfere :
    ¬∀ calls : List (Bool × JobCall SampleTx),
      Meets serveSample InOrder (idle (.new none)) calls →
      Meets serveSample StepAccepted (idle (.new none)) calls →
      (∀ j, Meets serveSample StepAccepted (idle (.new none)) (own j calls)) →
        ∀ j, publishedIn j (exec serveSample (idle (.new none)) calls).2 =
          (exec serveSample (idle (.new none)) (own j calls)).2 := by
  intro hall
  have horder : Meets serveSample InOrder (idle (.new none)) overlapping := by
    refine ((Meets.nil.concat ?_).concat ?_).concat ?_
    all_goals rfl
  have haccepted : Meets serveSample StepAccepted (idle (.new none)) overlapping := by
    refine ((Meets.nil.concat ?_).concat ?_).concat ?_
    · exact fun hstep => nomatch hstep
    · exact fun hstep => nomatch hstep
    · exact fun _ => List.cons_ne_nil _ _
  have halone : ∀ j, Meets serveSample StepAccepted (idle (.new none)) (own j overlapping) := by
    intro j
    cases j with
    | false =>
        show Meets serveSample StepAccepted (idle (.new none))
          ([] ++ [(false, .beforeJob)] ++ [(false, .step (.new none) 0)])
        refine (Meets.nil.concat ?_).concat ?_
        · exact fun hstep => nomatch hstep
        · exact fun _ => List.cons_ne_nil _ _
    | true =>
        show Meets serveSample StepAccepted (idle (.new none)) ([] ++ [(true, .beforeJob)])
        refine Meets.nil.concat ?_
        exact fun hstep => nomatch hstep
  have hsame := congrArg baseTimestamps (hall overlapping horder haccepted halone false)
  have hbases : [some (14 : UInt64)] = [some 12] := hsame
  exact absurd hbases (by decide)

end WorldChain.Step.Overlap
