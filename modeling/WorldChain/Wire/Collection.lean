import Mathlib.Data.Prod.Basic
import WorldChain.Deps.Reth
import WorldChain.Library.Fallible
import WorldChain.Library.Runs

/-! `Flashblocks` as the vector that the source keeps, with accessors that
unwrap and may panic. The collection of `Primitives` carries the guarantees
under which they never do; pushing to either comes to the same, over whole runs. -/
namespace WorldChain.Wire.Collection
open Library.Runs Library.Fallible Wire.Primitives Deps.Reth

abbrev Raw := List Flashblock

def unwrap {α : Type} (x : Option α) : Except Failure α :=
  orPanic "called unwrap on a None value" x

def rawLast (self : Raw) : Except Failure Flashblock := unwrap self.getLast?

def rawPayloadId (self : Raw) : Except Failure PayloadId := do
  let first ← unwrap self.head?
  return first.payloadId

def rawBase (self : Raw) : Except Failure ExecutionPayloadBaseV1 := do
  let first ← unwrap self.head?
  unwrap first.flashblock.base

def bail {α : Type} (e : FlashblocksError) : Except Failure α := .error (.error e.message)

def rawIsNewPayload (self : Raw) (fb : Flashblock) : Except Failure Bool := do
  let payloadId ← rawPayloadId self
  if fb.payloadId ≠ payloadId then
    if fb.flashblock.index ≠ 0 then bail .newPayloadIndexNotZero
    else
      match fb.flashblock.base with
      | none => bail .newPayloadWithoutBase
      | some base => do
          let current ← rawBase self
          if base.timestamp ≤ current.timestamp then bail .newPayloadNotLater else return true
  else if fb.flashblock.index.toNat ≠ self.length then
    bail (.indexNotContiguous self.length fb.flashblock.index payloadId)
  else return false

def rawPush (self : Raw) (fb : Flashblock) : Except Failure Bool × Raw :=
  match rawIsNewPayload self fb with
  | .error e => (.error e, self)
  | .ok isNew => (.ok isNew, (if isNew then [] else self) ++ [fb])

theorem unwrap_head (self : Flashblocks) : unwrap self.toList.head? = .ok self.first :=
  congrArg unwrap self.first_mem_head?

@[simp] theorem rawLast_eq (self : Flashblocks) : rawLast self.toList = .ok self.last :=
  congrArg unwrap (List.getLast?_eq_some_getLast self.guaranteed.nonempty)

@[simp] theorem rawPayloadId_eq (self : Flashblocks) :
    rawPayloadId self.toList = .ok self.payloadId := by
  unfold rawPayloadId
  rw [unwrap_head]
  rfl

@[simp] theorem rawBase_eq (self : Flashblocks) : rawBase self.toList = .ok self.base := by
  have hbase : self.first.flashblock.base = some self.base :=
    (Option.some_get (self.guaranteed.base _ self.first_mem_head?)).symm
  unfold rawBase
  rw [unwrap_head]
  exact congrArg unwrap hbase

@[simp] theorem rawIsNewPayload_eq (self : Flashblocks) (fb : Flashblock) :
    rawIsNewPayload self.toList fb =
      (self.isNewPayload fb).mapError fun e => .error e.message := by
  unfold rawIsNewPayload Flashblocks.isNewPayload
  rw [rawPayloadId_eq, rawBase_eq]
  simp only [bind, Except.bind]
  split
  · split
    · rfl
    · cases fb.flashblock.base with
      | none => rfl
      | some base =>
          dsimp only
          split <;> rfl
  · split <;> rfl

theorem push_of_error {self : Flashblocks} {fb : Flashblock} {e : FlashblocksError}
    (h : self.isNewPayload fb = .error e) : self.push fb = .error e := by
  unfold Flashblocks.push
  split
  · rename_i hpush
    rw [Except.error.inj (hpush.symm.trans h)]
  · rename_i hpush
    cases hpush.symm.trans h
  · rename_i hpush
    cases hpush.symm.trans h

theorem rawPush_eq (self : Flashblocks) (fb : Flashblock) :
    rawPush self.toList fb =
      match self.push fb with
      | .error e => (.error (.error e.message), self.toList)
      | .ok (isNew, next) => (.ok isNew, next.toList) := by
  unfold rawPush
  rw [rawIsNewPayload_eq]
  cases hisNew : self.isNewPayload fb with
  | error e =>
      rw [push_of_error hisNew]
      rfl
  | ok isNew =>
      cases isNew with
      | true =>
          rw [push_of_new hisNew]
          rfl
      | false =>
          rw [push_of_next hisNew]
          rfl

theorem push_base {self next : Flashblocks} {fb : Flashblock} {isNew : Bool}
    (h : self.push fb = .ok (isNew, next)) :
    if isNew then fb.base = some next.base ∧ self.base.timestamp < next.base.timestamp
    else next.base = self.base := by
  obtain ⟨hisNew, _, _, htoList⟩ := push_ok h
  have hfirst : next.first.base = some next.base :=
    (Option.some_get (next.guaranteed.base _ next.first_mem_head?)).symm
  cases isNew with
  | true =>
      obtain ⟨_, _, base, hbase, hlater⟩ := isNewPayload_true hisNew
      have hhead : next.first = fb := by
        have hmem := next.first_mem_head?
        rw [htoList] at hmem
        exact (Option.some.inj hmem).symm
      rw [hhead] at hfirst
      rw [hbase] at hfirst
      cases hfirst
      exact ⟨hbase, hlater⟩
  | false =>
      have hhead : next.first = self.first := by
        have hmem := next.first_mem_head?
        rw [htoList] at hmem
        simp only [Bool.false_eq_true, ↓reduceIte, List.head?_append] at hmem
        rw [self.first_mem_head?, Option.some_or] at hmem
        exact (Option.some.inj hmem).symm
      rw [hhead] at hfirst
      exact Option.some.inj (hfirst.symm.trans
        (Option.some_get (self.guaranteed.base _ self.first_mem_head?)).symm)

/-! Runs of pushes. -/

structure Accepted where
  flashblock : Flashblock
  base : ExecutionPayloadBaseV1

def Accepted.rank (self : Accepted) : Nat × Nat :=
  (self.base.timestamp.toNat, self.flashblock.flashblock.index.toNat)

def Accepted.key (self : Accepted) : PayloadId × Nat :=
  (self.flashblock.payloadId, self.flashblock.flashblock.index.toNat)

abbrev Earlier : Nat × Nat → Nat × Nat → Prop := Prod.Lex (· < ·) (· < ·)

def held (self : Flashblocks) : List Accepted := self.toList.map fun fb => ⟨fb, self.base⟩

def pushStep (self : Raw) (fb : Flashblock) : Raw × List Accepted :=
  let pushed := rawPush self fb
  (pushed.2,
    match pushed.1, rawBase pushed.2 with
    | .ok _, .ok base => [⟨fb, base⟩]
    | _, _ => [])

theorem pushStep_cases (self : Flashblocks) (fb : Flashblock) :
    pushStep self.toList fb = (self.toList, []) ∨
      ∃ isNew next, self.push fb = .ok (isNew, next) ∧
        pushStep self.toList fb = (next.toList, [⟨fb, next.base⟩]) := by
  unfold pushStep
  rw [rawPush_eq]
  cases hpush : self.push fb with
  | error e => exact .inl rfl
  | ok pushed => exact .inr ⟨pushed.1, pushed.2, rfl, by simp only [rawBase_eq]⟩

/-- What a log of accepted flashblocks says about the collection it ends in:
the ranks increase up to it, it is in the log itself, and so is the first
flashblock of every payload. -/
structure Logged (flashblocks : Flashblocks) (log : List Accepted) : Prop where
  sorted : log.Pairwise fun a b => Earlier a.rank b.rank
  bounded : ∀ a ∈ log,
    Earlier a.rank (flashblocks.base.timestamp.toNat, flashblocks.toList.length)
  collected : ∀ fb ∈ flashblocks.toList, ⟨fb, flashblocks.base⟩ ∈ log
  opened : ∀ a ∈ log, ∃ first ∈ log, first.flashblock.flashblock.index = 0 ∧
    first.flashblock.payloadId = a.flashblock.payloadId ∧ first.flashblock.base = some a.base

theorem first_index (self : Flashblocks) : self.first.flashblock.index = 0 := by
  have hpos := List.length_pos_iff.mpr self.guaranteed.nonempty
  have hindex := self.guaranteed.index 0 hpos
  rw [List.getElem_zero] at hindex
  exact UInt64.toNat_inj.mp hindex

theorem first_base (self : Flashblocks) : self.first.base = some self.base :=
  (Option.some_get (self.guaranteed.base _ self.first_mem_head?)).symm

theorem logged_held (self : Flashblocks) : Logged self (held self) where
  sorted := by
    unfold held
    rw [List.pairwise_map, List.pairwise_iff_getElem]
    intro i j hi hj hlt
    apply Prod.Lex.right
    dsimp only
    rw [self.guaranteed.index i hi, self.guaranteed.index j hj]
    exact hlt
  bounded := by
    intro a ha
    obtain ⟨fb, hfb, rfl⟩ := List.mem_map.mp ha
    obtain ⟨i, hi, rfl⟩ := List.getElem_of_mem hfb
    apply Prod.Lex.right
    dsimp only
    rw [self.guaranteed.index i hi]
    exact hi
  collected := by
    intro fb hfb
    exact List.mem_map.mpr ⟨fb, hfb, rfl⟩
  opened := by
    intro a ha
    obtain ⟨fb, hfb, rfl⟩ := List.mem_map.mp ha
    refine ⟨⟨self.first, self.base⟩, List.mem_map.mpr ⟨_, List.head_mem _, rfl⟩,
      first_index self, ?_, first_base self⟩
    exact (self.guaranteed.payloadId _ self.first_mem_head? fb hfb).symm

/-- Whatever stood in the log, a push that succeeds ranks after it. -/
theorem push_rank {self next : Flashblocks} {fb : Flashblock} {isNew : Bool}
    (hpush : self.push fb = .ok (isNew, next)) {rank : Nat × Nat}
    (hrank : Earlier rank (self.base.timestamp.toNat, self.toList.length)) :
    Earlier rank (Accepted.rank ⟨fb, next.base⟩) := by
  have hbase := push_base hpush
  have hisNew := (push_ok hpush).1
  cases isNew with
  | true =>
      have hold := Prod.lex_def.mp hrank
      have hlater := UInt64.lt_iff_toNat_lt.mp hbase.2
      apply Prod.Lex.left
      dsimp only at hold ⊢
      omega
  | false =>
      have hsame : next.base = self.base := hbase
      have hindex := (isNewPayload_false hisNew).2
      unfold Accepted.rank
      rw [hsame, hindex]
      exact hrank

theorem push_rank_lt {self next : Flashblocks} {fb : Flashblock} {isNew : Bool}
    (hpush : self.push fb = .ok (isNew, next)) :
    Earlier (Accepted.rank ⟨fb, next.base⟩) (next.base.timestamp.toNat, next.toList.length) := by
  obtain ⟨hisNew, _, _, htoList⟩ := push_ok hpush
  apply Prod.Lex.right
  cases isNew with
  | true => simp [htoList, (isNewPayload_true hisNew).2.1]
  | false => simp [htoList, (isNewPayload_false hisNew).2]

theorem Logged.push {self next : Flashblocks} {log : List Accepted} (h : Logged self log)
    {fb : Flashblock} {isNew : Bool} (hpush : self.push fb = .ok (isNew, next)) :
    Logged next (log ++ [⟨fb, next.base⟩]) := by
  have hbase := push_base hpush
  obtain ⟨_, _, hpayloadId, htoList⟩ := push_ok hpush
  have hcollected : ∀ other ∈ next.toList, ⟨other, next.base⟩ ∈ log ++ [⟨fb, next.base⟩] := by
    intro other hother
    rw [htoList] at hother
    cases isNew with
    | true =>
        rw [List.mem_singleton.mp hother]
        exact List.mem_append_right _ List.mem_cons_self
    | false =>
        have hsame : next.base = self.base := hbase
        cases List.mem_append.mp hother with
        | inl hold =>
            rw [hsame]
            exact List.mem_append_left _ (h.collected other hold)
        | inr hnew =>
            rw [List.mem_singleton.mp hnew]
            exact List.mem_append_right _ List.mem_cons_self
  refine ⟨?_, ?_, hcollected, ?_⟩
  · apply List.pairwise_append.mpr
    refine ⟨h.sorted, List.pairwise_singleton _ _, ?_⟩
    intro a ha b hb
    rw [List.mem_singleton.mp hb]
    exact push_rank hpush (h.bounded a ha)
  · intro a ha
    cases List.mem_append.mp ha with
    | inl hold => exact Prod.Lex.trans (push_rank hpush (h.bounded a hold)) (push_rank_lt hpush)
    | inr hnew =>
        rw [List.mem_singleton.mp hnew]
        exact push_rank_lt hpush
  · intro a ha
    cases List.mem_append.mp ha with
    | inl hold =>
        obtain ⟨first, hfirst, hopened⟩ := h.opened a hold
        exact ⟨first, List.mem_append_left _ hfirst, hopened⟩
    | inr hnew =>
        rw [List.mem_singleton.mp hnew]
        exact ⟨⟨next.first, next.base⟩, hcollected _ (List.head_mem _), first_index next,
          hpayloadId, first_base next⟩

/-- After any run the vector is that of a collection, and its log is in order. -/
theorem logged_exec (start : Flashblocks) (pushes : List Flashblock) :
    ∃ reached : Flashblocks, (exec pushStep start.toList pushes).1 = reached.toList ∧
      Logged reached (held start ++ (exec pushStep start.toList pushes).2) := by
  induction pushes using List.reverseRecOn with
  | nil => exact ⟨start, rfl, by simpa using logged_held start⟩
  | append_singleton pushes fb ih =>
      obtain ⟨reached, hreached, hlogged⟩ := ih
      rw [exec_concat, hreached]
      cases pushStep_cases reached fb with
      | inl hrefused =>
          rw [hrefused, List.append_nil]
          exact ⟨reached, rfl, hlogged⟩
      | inr haccepted =>
          obtain ⟨isNew, next, hpush, heq⟩ := haccepted
          rw [heq, ← List.append_assoc]
          exact ⟨next, rfl, hlogged.push hpush⟩

theorem accepted_mem (pushes : List Flashblock) (self : Raw) :
    ∀ a ∈ (exec pushStep self pushes).2, a.flashblock ∈ pushes := by
  induction pushes generalizing self with
  | nil => simp
  | cons fb rest ih =>
      intro a ha
      rw [exec_cons] at ha
      cases List.mem_append.mp ha with
      | inl hnow =>
          have hfb : a.flashblock = fb := by
            unfold pushStep at hnow
            dsimp only at hnow
            split at hnow
            · rw [List.mem_singleton.mp hnow]
            · cases hnow
          rw [hfb]
          exact List.mem_cons_self
      | inr hlater => exact List.mem_cons_of_mem _ (ih _ a hlater)

/-- A push that fails is an error and changes nothing; one that succeeds says
whether the payload id changed, which takes a later base. -/
structure PushKeeps (self : Raw) (fb : Flashblock) : Prop where
  failed : ∀ e, (rawPush self fb).1 = .error e →
    (rawPush self fb).2 = self ∧ ∃ refused : FlashblocksError, e = .error refused.message
  ok : ∀ isNew, (rawPush self fb).1 = .ok isNew →
    (isNew ↔ rawPayloadId (rawPush self fb).2 ≠ rawPayloadId self) ∧
      (isNew → ∃ old new, rawBase self = .ok old ∧ rawBase (rawPush self fb).2 = .ok new ∧
        old.timestamp < new.timestamp)

theorem pushKeeps (self : Flashblocks) (fb : Flashblock) : PushKeeps self.toList fb := by
  have heq := rawPush_eq self fb
  cases hpush : self.push fb with
  | error e =>
      rw [hpush] at heq
      constructor
      · intro e' he
        rw [heq] at he ⊢
        exact ⟨rfl, e, (Except.error.inj he).symm⟩
      · intro isNew hok
        rw [heq] at hok
        cases hok
  | ok pushed =>
      obtain ⟨isNew, next⟩ := pushed
      rw [hpush] at heq
      have hbase := push_base hpush
      obtain ⟨hisNew, _, hpayloadId, _⟩ := push_ok hpush
      constructor
      · intro e' he
        rw [heq] at he
        cases he
      · intro isNew' hok
        rw [heq] at hok ⊢
        cases hok
        rw [rawPayloadId_eq, rawPayloadId_eq, hpayloadId, rawBase_eq, rawBase_eq]
        cases isNew with
        | true =>
            have hid := (isNewPayload_true hisNew).1
            exact ⟨by simpa using hid, fun _ => ⟨_, _, rfl, rfl, hbase.2⟩⟩
        | false =>
            have hid := (isNewPayload_false hisNew).1
            exact ⟨by simpa using hid, fun h => nomatch h⟩

def OneTimestamp (flashblocks : List Flashblock) : Prop :=
  ∀ a ∈ flashblocks, ∀ b ∈ flashblocks, a.flashblock.index = 0 → b.flashblock.index = 0 →
    a.payloadId = b.payloadId → ∀ base ∈ a.base, ∀ base' ∈ b.base, base.timestamp = base'.timestamp

/-- Flashblocks of one key come from collections of one timestamp. -/
theorem Logged.keys_nodup {flashblocks : Flashblocks} {log : List Accepted}
    (h : Logged flashblocks log) (hone : OneTimestamp (log.map Accepted.flashblock)) :
    (log.map Accepted.key).Nodup := by
  apply List.pairwise_map.mpr
  apply h.sorted.imp_of_mem
  intro a b ha hb hearlier hkey
  obtain ⟨first, hfirst, hindex, hid, hbase⟩ := h.opened a ha
  obtain ⟨first', hfirst', hindex', hid', hbase'⟩ := h.opened b hb
  have hsame : first.flashblock.payloadId = first'.flashblock.payloadId := by
    rw [hid, hid']
    exact congrArg Prod.fst hkey
  have htimestamp := hone _ (List.mem_map_of_mem hfirst) _ (List.mem_map_of_mem hfirst') hindex
    hindex' hsame _ hbase _ hbase'
  have hrank : a.rank = b.rank := by
    unfold Accepted.rank
    rw [htimestamp]
    exact congrArg _ (congrArg Prod.snd hkey)
  rw [hrank] at hearlier
  have hlt := Prod.lex_def.mp hearlier
  omega

/-- What every run of pushes keeps: the guarantees, so that no accessor
panics and every push does what it reports; what has been accepted is in order
by base timestamp and index, and nothing is accepted twice where the first
flashblocks of a payload agree on its timestamp. -/
theorem collection_along_run (start : Flashblocks) (pushes : List Flashblock) :
    let reached := (exec pushStep start.toList pushes).1
    let log := held start ++ (exec pushStep start.toList pushes).2
    Guaranteed reached ∧
      ((rawLast reached).isOk ∧ (rawBase reached).isOk ∧ (rawPayloadId reached).isOk) ∧
      (∀ fb, PushKeeps reached fb) ∧
      (log.map Accepted.rank).Pairwise Earlier ∧
      (OneTimestamp (start.toList ++ pushes) → (log.map Accepted.key).Nodup) := by
  intro reached log
  obtain ⟨flashblocks, hreached, hlogged⟩ := logged_exec start pushes
  have hinput : ∀ a ∈ log, a.flashblock ∈ start.toList ++ pushes := by
    intro a ha
    apply List.mem_append.mpr
    cases List.mem_append.mp ha with
    | inl hheld =>
        obtain ⟨fb, hfb, rfl⟩ := List.mem_map.mp hheld
        exact .inl hfb
    | inr haccepted => exact .inr (accepted_mem pushes _ a haccepted)
  have hlast : reached = flashblocks.toList := hreached
  rw [hlast]
  refine ⟨flashblocks.guaranteed, ?_, pushKeeps flashblocks, List.pairwise_map.mpr hlogged.sorted, ?_⟩
  · rw [rawLast_eq, rawBase_eq, rawPayloadId_eq]
    exact ⟨rfl, rfl, rfl⟩
  · intro hone
    apply hlogged.keys_nodup
    intro a ha b hb
    obtain ⟨accepted, haccepted, rfl⟩ := List.mem_map.mp ha
    obtain ⟨accepted', haccepted', rfl⟩ := List.mem_map.mp hb
    exact hone _ (hinput _ haccepted) _ (hinput _ haccepted')

/-! Validating a whole list against pushing its elements one by one. -/

theorem new_of_guaranteed {flashblocks : List Flashblock} (h : Guaranteed flashblocks) :
    Flashblocks.new flashblocks = .ok ⟨flashblocks, h⟩ := by
  obtain ⟨first, rest, rfl⟩ := List.exists_cons_of_ne_nil h.nonempty
  have hbase : first.base.isNone ≠ true := by
    have hsome := h.base first rfl
    cases hfirst : first.base with
    | none => simp [hfirst] at hsome
    | some base => simp
  have hid : ¬(rest.any fun fb => fb.payloadId ≠ first.payloadId) = true := by
    simp only [List.any_eq_true, decide_eq_true_eq, not_exists, not_and, not_not]
    exact fun fb hfb => h.payloadId first rfl fb (List.mem_cons_of_mem _ hfb)
  have hindex : ¬((first :: rest).zipIdx.any fun p => p.1.flashblock.index.toNat ≠ p.2) = true := by
    simp only [List.any_eq_true, decide_eq_true_eq, not_exists, not_and, not_not]
    intro p hp
    obtain ⟨hlt, hget⟩ := List.getElem?_eq_some_iff.mp (List.mem_zipIdx_iff_getElem?.mp hp)
    rw [← hget]
    exact h.index p.2 hlt
  rw [Flashblocks.new, dif_neg hbase, dif_neg hid, dif_neg hindex]

theorem new_toList {flashblocks : List Flashblock} {whole : Flashblocks}
    (h : Flashblocks.new flashblocks = .ok whole) : whole.toList = flashblocks := by
  cases flashblocks with
  | nil => cases h
  | cons first rest =>
      rw [Flashblocks.new] at h
      split_ifs at h
      rw [← Except.ok.inj h]

theorem new_isOk_iff (flashblocks : List Flashblock) :
    (Flashblocks.new flashblocks).isOk ↔ Guaranteed flashblocks := by
  constructor
  · intro hok
    obtain ⟨whole, hwhole⟩ := exists_ok hok
    rw [← new_toList hwhole]
    exact whole.guaranteed
  · intro h
    rw [new_of_guaranteed h]
    rfl

theorem guaranteed_concat_iff (first : Flashblock) (rest : List Flashblock) (fb : Flashblock) :
    Guaranteed (first :: rest ++ [fb]) ↔ Guaranteed (first :: rest) ∧
      fb.payloadId = first.payloadId ∧ fb.flashblock.index.toNat = (first :: rest).length := by
  constructor
  · intro h
    refine ⟨⟨List.cons_ne_nil _ _, h.base, ?_, ?_⟩, ?_, ?_⟩
    · intro first' hfirst other hother
      exact h.payloadId first' hfirst other (List.mem_append_left _ hother)
    · intro i hi
      have hlong := h.index i (by simpa using Nat.lt_succ_of_lt hi)
      rw [List.getElem_append_left hi] at hlong
      exact hlong
    · exact h.payloadId first rfl fb (List.mem_append_right _ List.mem_cons_self)
    · have hlast := h.index (first :: rest).length (by simp)
      rw [List.getElem_concat_length rfl] at hlast
      exact hlast
  · rintro ⟨h, hid, hindex⟩
    refine guaranteed_append h ?_ hindex
    intro first' hfirst
    cases hfirst
    exact hid

def answerPush (self : Raw) (fb : Flashblock) : Raw × List (Except Failure Bool) :=
  ((rawPush self fb).2, [(rawPush self fb).1])

theorem answerPush_of_ok {self : Flashblocks} {fb : Flashblock} {isNew : Bool}
    (h : self.isNewPayload fb = .ok isNew) :
    answerPush self.toList fb = ((if isNew then [] else self.toList) ++ [fb], [.ok isNew]) := by
  unfold answerPush rawPush
  rw [rawIsNewPayload_eq, h]
  rfl

theorem answerPush_of_error {self : Flashblocks} {fb : Flashblock} {e : FlashblocksError}
    (h : self.isNewPayload fb = .error e) :
    answerPush self.toList fb = (self.toList, [bail e]) := by
  unfold answerPush rawPush
  rw [rawIsNewPayload_eq, h]
  rfl

theorem isNewPayload_of_later {self : Flashblocks} {first : Flashblock}
    (hid : first.payloadId ≠ self.payloadId) {base : ExecutionPayloadBaseV1}
    (hbase : first.base = some base) (hlater : self.base.timestamp < base.timestamp) :
    self.isNewPayload first =
      if first.flashblock.index ≠ 0 then .error .newPayloadIndexNotZero else .ok true := by
  have hbase' : first.flashblock.base = some base := hbase
  rw [Flashblocks.isNewPayload, if_pos hid, hbase']
  dsimp only
  rw [if_neg (UInt64.not_le.mpr hlater)]

theorem isNewPayload_false_iff {self : Flashblocks} {fb : Flashblock} :
    self.isNewPayload fb = .ok false ↔
      fb.payloadId = self.payloadId ∧ fb.flashblock.index.toNat = self.toList.length := by
  refine ⟨isNewPayload_false, ?_⟩
  rintro ⟨hid, hindex⟩
  rw [Flashblocks.isNewPayload, if_neg (not_not.mpr hid), if_neg (not_not.mpr hindex)]

theorem answerPush_false_iff (self : Flashblocks) (fb : Flashblock) :
    (answerPush self.toList fb).2 = [.ok false] ↔ self.isNewPayload fb = .ok false := by
  cases h : self.isNewPayload fb with
  | error e => simp [answerPush_of_error h, bail]
  | ok isNew => simp [answerPush_of_ok h]

def openedAnswers (rest : List Flashblock) : List (Except Failure Bool) :=
  .ok true :: List.replicate rest.length (.ok false)

theorem exec_answerPush {self : Flashblocks} {first : Flashblock}
    (hid : first.payloadId ≠ self.payloadId) {base : ExecutionPayloadBaseV1}
    (hbase : first.base = some base) (hlater : self.base.timestamp < base.timestamp)
    (rest : List Flashblock) :
    ((exec answerPush self.toList (first :: rest)).2 = openedAnswers rest ↔
      Guaranteed (first :: rest)) ∧
      (Guaranteed (first :: rest) →
        (exec answerPush self.toList (first :: rest)).1 = first :: rest) := by
  induction rest using List.reverseRecOn with
  | nil =>
      have hisNew := isNewPayload_of_later hid hbase hlater
      rw [exec_cons, exec_nil]
      by_cases hindex : first.flashblock.index = 0
      · rw [if_neg (not_not.mpr hindex)] at hisNew
        rw [answerPush_of_ok hisNew]
        have hguaranteed : Guaranteed [first] := guaranteed_singleton hindex (by simp [hbase])
        exact ⟨⟨fun _ => hguaranteed, fun _ => rfl⟩, fun _ => rfl⟩
      · rw [if_pos hindex] at hisNew
        rw [answerPush_of_error hisNew]
        have hnot : ¬Guaranteed [first] := by
          intro h
          exact hindex (first_index ⟨[first], h⟩)
        refine ⟨⟨?_, fun h => absurd h hnot⟩, fun h => absurd h hnot⟩
        intro h
        cases h
  | append_singleton rest fb ih =>
      have hanswers : openedAnswers (rest ++ [fb]) = openedAnswers rest ++ [.ok false] := by
        simp [openedAnswers, List.replicate_succ']
      rw [← List.cons_append, exec_concat, hanswers, guaranteed_concat_iff]
      constructor
      · constructor
        · intro h
          obtain ⟨hbefore, hlast⟩ := List.append_inj' h rfl
          have hguaranteed := ih.1.mp hbefore
          rw [ih.2 hguaranteed] at hlast
          exact ⟨hguaranteed, isNewPayload_false_iff.mp
            ((answerPush_false_iff ⟨first :: rest, hguaranteed⟩ fb).mp hlast)⟩
        · rintro ⟨hguaranteed, hnext⟩
          have hlast := (answerPush_false_iff ⟨first :: rest, hguaranteed⟩ fb).mpr
            (isNewPayload_false_iff.mpr hnext)
          rw [ih.1.mpr hguaranteed, ih.2 hguaranteed]
          exact congrArg (openedAnswers rest ++ ·) hlast
      · rintro ⟨hguaranteed, hnext⟩
        have hlast := @answerPush_of_ok ⟨first :: rest, hguaranteed⟩ fb false
          (isNewPayload_false_iff.mpr hnext)
        rw [ih.2 hguaranteed]
        exact congrArg Prod.fst hlast

/-- Both validators take the same lists, to the same collection. -/
theorem new_iff_pushes {self : Flashblocks} {first : Flashblock}
    (hid : first.payloadId ≠ self.payloadId) {base : ExecutionPayloadBaseV1}
    (hbase : first.base = some base) (hlater : self.base.timestamp < base.timestamp)
    (rest : List Flashblock) :
    ((Flashblocks.new (first :: rest)).isOk ↔
        (exec answerPush self.toList (first :: rest)).2 =
          .ok true :: List.replicate rest.length (.ok false)) ∧
      ∀ whole, Flashblocks.new (first :: rest) = .ok whole →
        (exec answerPush self.toList (first :: rest)).1 = whole.toList := by
  obtain ⟨hanswers, hreached⟩ := exec_answerPush hid hbase hlater rest
  refine ⟨(new_isOk_iff _).trans hanswers.symm, ?_⟩
  intro whole hwhole
  have hlist := new_toList hwhole
  rw [hlist]
  apply hreached
  rw [← hlist]
  exact whole.guaranteed

def opening : Flashblock :=
  ⟨{ FlashblocksPayload.bare 7 0 with base := some { timestamp := 1 } }⟩

theorem opening_pushed :
    ((Flashblocks.new [opening, ⟨.bare 7 1⟩]).isOk ↔
        (exec answerPush Flashblocks.default.toList [opening, ⟨.bare 7 1⟩]).2 =
          [.ok true, .ok false]) ∧
      ∀ whole, Flashblocks.new [opening, ⟨.bare 7 1⟩] = .ok whole →
        (exec answerPush Flashblocks.default.toList [opening, ⟨.bare 7 1⟩]).1 = whole.toList :=
  new_iff_pushes (by decide) rfl (by decide) [⟨.bare 7 1⟩]

end WorldChain.Wire.Collection
