import Mathlib.Data.List.TakeWhile
import WorldChain.P2p.WithinPayload

/-! Messages of other payloads between the messages of one payload. Any of them
resets the state, so what follows is collected from an empty buffer. -/
namespace WorldChain.P2p.AcrossPayloads
open Library Library.ReorderBuffer Library.Runs Wire.Primitives Publish OrderedState WithinPayload

variable {encode : FlashblocksPayload → Bytes}

def ofPayload (id : PayloadId) (payloads : List FlashblocksPayload) : List FlashblocksPayload :=
  payloads.filter fun payload => payload.payloadId = id

@[simp] theorem ofPayload_append (id : PayloadId) (left right : List FlashblocksPayload) :
    ofPayload id (left ++ right) = ofPayload id left ++ ofPayload id right := by
  simp [ofPayload]

def callsOf (id : PayloadId) (calls : List (Int × FlashblocksPayload)) :
    List (Int × FlashblocksPayload) :=
  calls.filter fun call => call.2.payloadId = id

/-- The next flashblock with this index would be emitted, or would release
others: its slot is empty, and it is the one the cursor waits for or the cursor
stands on a slot that was filled without being emitted. -/
def Completes (state : FlashblocksP2PState) (index : Nat) : Prop :=
  slot state.flashblocks index = none ∧
    ((slot state.flashblocks state.flashblockIndex).isSome ∨ index = state.flashblockIndex)

theorem payloadId_of_emitted {state : FlashblocksP2PState} (h : Ordered state) (now : Int)
    {payload emitted : FlashblocksPayload}
    (hemitted : emitted ∈ flashblockTx (publish encode now state payload).2) :
    emitted.payloadId = payload.payloadId := by
  obtain ⟨n, hkeys, _⟩ := publish_emitted_keys h encode now payload
  have hmem : payloadKey emitted ∈
      (flashblockTx (publish encode now state payload).2).map payloadKey :=
    List.mem_map_of_mem hemitted
  rw [hkeys] at hmem
  obtain ⟨i, _, hi⟩ := List.mem_map.mp hmem
  exact (congrArg Prod.fst hi).symm

theorem ofPayload_publish {state : FlashblocksP2PState} (h : Ordered state) (now : Int)
    (id : PayloadId) (payload : FlashblocksPayload) :
    ofPayload id (flashblockTx (publish encode now state payload).2) =
      if payload.payloadId = id then flashblockTx (publish encode now state payload).2 else [] := by
  unfold ofPayload
  split
  · rename_i hid
    apply List.filter_eq_self.mpr
    intro emitted hemitted
    simp [payloadId_of_emitted h now hemitted, hid]
  · rename_i hid
    apply List.filter_eq_nil_iff.mpr
    intro emitted hemitted
    simp [payloadId_of_emitted h now hemitted, hid]

/-- Within the current payload, a call emits something exactly when its index
completes the buffer at the cursor. -/
theorem emits_iff_completes {state : FlashblocksP2PState} (h : Ordered state) (now : Int)
    {payload : FlashblocksPayload} (hid : payload.payloadId = state.payloadId)
    (hlimits : WithinLimits encode payload) :
    flashblockTx (publish encode now state payload).2 = [] ↔
      ¬Completes state payload.index.toNat := by
  have hreset := resetFor_of_eq hid
  rcases publish_cases encode now state payload with
    ⟨hlt, _⟩ | ⟨_, hfull, heq⟩ | ⟨_, _, hframe, _⟩ | ⟨_, hempty, _, heq⟩
  · exact absurd hlimits.index (by omega)
  · rw [hreset] at hfull
    have hcompletes : ¬Completes state payload.index.toNat := by
      intro hc
      simp [hc.1] at hfull
    simp [heq, hcompletes]
  · exact absurd hlimits.frame (by omega)
  · have hready : (state.cached payload).ready = [] ↔
        slot (state.cached payload).flashblocks state.flashblockIndex = none := by
      have hcursor : (state.cached payload).flashblockIndex = state.flashblockIndex := by
        rw [cached_flashblockIndex, hreset]
      have hcached := h.cached payload hempty
      have hle := hcached.cursor
      rw [hcached.ready, hcursor, List.drop_eq_nil_iff]
      rw [hcursor] at hle
      constructor
      · intro hge
        rw [Nat.le_antisymm hle hge]
        exact slot_filledPrefix_length _
      · intro hnone
        by_contra hlt
        rw [slot_of_lt_filledPrefix (Nat.lt_of_not_le hlt),
          List.getElem?_eq_getElem (Nat.lt_of_not_le hlt)] at hnone
        cases hnone
    rw [hreset] at hempty
    simp only [heq, flashblockTx_cons_peer, flashblockTx_map_flashblock, hready, slot_cached,
      hreset, Completes, hempty, true_and, not_or, Option.not_isSome_iff_eq_none]
    by_cases hi : state.flashblockIndex = payload.index.toNat
    · simp [hi]
    · simp [hi, Ne.symm hi]

theorem completes_publish {state : FlashblocksP2PState} (h : Ordered state) (now : Int)
    {payload : FlashblocksPayload} (hid : payload.payloadId = state.payloadId)
    (hlimits : WithinLimits encode payload)
    (hnot : ¬Completes state payload.index.toNat) (index : Nat) :
    Completes (publish encode now state payload).1 index ↔ Completes state index := by
  have hreset := resetFor_of_eq hid
  have hemits := (emits_iff_completes h now hid hlimits).mpr hnot
  rcases publish_cases encode now state payload with
    ⟨hlt, _⟩ | ⟨_, hfull, heq⟩ | ⟨_, _, hframe, _⟩ | ⟨_, hempty, _, heq⟩
  · exact absurd hlimits.index (by omega)
  · rw [heq, hreset]
    simp [Completes]
  · exact absurd hlimits.frame (by omega)
  · rw [heq] at hemits ⊢
    simp only [flashblockTx_cons_peer, flashblockTx_map_flashblock] at hemits
    rw [hreset] at hempty
    -- the slot was empty, so the cursor waits elsewhere and its slot is empty
    have hcursor : slot state.flashblocks state.flashblockIndex = none ∧
        payload.index.toNat ≠ state.flashblockIndex := by
      simp only [Completes, hempty, true_and, not_or, Option.not_isSome_iff_eq_none] at hnot
      exact hnot
    simp only [Completes, hemits, List.length_nil, advance_flashblocks, advance_flashblockIndex,
      cached_flashblockIndex, hreset, Nat.add_zero, slot_cached]
    simp only [Ne.symm hcursor.2, ↓reduceIte, hcursor.1, Option.isSome_none, Bool.false_eq_true,
      false_or]
    by_cases hi : index = payload.index.toNat
    · subst hi
      simp [hcursor.2]
    · simp [hi]

theorem run_silent_iff {id : PayloadId} {state : FlashblocksP2PState} (h : Ordered state)
    (hstate : state.payloadId = id) (calls : List (Int × FlashblocksPayload))
    (hcalls : ∀ call ∈ calls, call.2.payloadId = id ∧ WithinLimits encode call.2) :
    flashblockTx (run encode state calls).2 = [] ↔
      ∀ call ∈ calls, ¬Completes state call.2.index.toNat := by
  induction calls generalizing state with
  | nil => simp
  | cons call rest ih =>
      have hcall := hcalls call List.mem_cons_self
      have hid : call.2.payloadId = state.payloadId := hcall.1.trans hstate.symm
      have hrest := ih (h.publish encode call.1 call.2)
        ((publish_payloadId encode call.1 state call.2).trans hcall.1)
        (fun c hc => hcalls c (List.mem_cons_of_mem _ hc))
      simp only [run, exec_cons, publishStep, flashblockTx_append, List.append_eq_nil_iff,
        List.forall_mem_cons]
      simp only [run] at hrest
      rw [emits_iff_completes h call.1 hid hcall.2]
      apply and_congr_right
      intro hnot
      rw [hrest]
      simp only [completes_publish h call.1 hid hcall.2 hnot]

/-- Nothing of the payload is at hand: another payload is current, or nothing
has been emitted and slot 0 is empty. -/
def Untouched (id : PayloadId) (state : FlashblocksP2PState) : Prop :=
  state.payloadId = id →
    state.flashblockIndex = 0 ∧ slot state.flashblocks 0 = none

theorem Untouched.resetFor {id : PayloadId} {state : FlashblocksP2PState}
    (hstate : Untouched id state) {payload : FlashblocksPayload} (hid : payload.payloadId = id) :
    (state.resetFor payload).flashblockIndex = 0 ∧
      slot (state.resetFor payload).flashblocks 0 = none := by
  by_cases hsame : payload.payloadId = state.payloadId
  · rw [resetFor_of_eq hsame]
    exact hstate (hsame.symm.trans hid)
  · have hfresh := resetFor_of_ne hsame
    simp [hfresh.1, hfresh.2]

theorem publish_untouched_first {id : PayloadId} {state : FlashblocksP2PState} (h : Ordered state)
    (hstate : Untouched id state) (now : Int) {payload : FlashblocksPayload}
    (hid : payload.payloadId = id) (hlimits : WithinLimits encode payload)
    (hzero : payload.index.toNat = 0) :
    ∃ first others, flashblockTx (publish encode now state payload).2 = first :: others ∧
      payloadKey first = (id, 0) := by
  have hfresh := hstate.resetFor hid
  have hemits : flashblockTx (publish encode now (state.resetFor payload) payload).2 = [] ↔
      ¬Completes (state.resetFor payload) payload.index.toNat :=
    emits_iff_completes (h.resetFor payload) now (resetFor_payloadId state payload).symm hlimits
  rw [publish_resetFor] at hemits
  have hcompletes : Completes (state.resetFor payload) payload.index.toNat := by
    rw [hzero]
    exact ⟨hfresh.2, .inr hfresh.1.symm⟩
  have hne := hemits.not.mpr (not_not.mpr hcompletes)
  obtain ⟨n, hkeys, _⟩ := publish_emitted_keys h encode now payload
  cases hemitted : flashblockTx (publish encode now state payload).2 with
  | nil => exact absurd hemitted hne
  | cons first others =>
      refine ⟨first, others, rfl, ?_⟩
      rw [hemitted, hfresh.1, hid] at hkeys
      cases n with
      | zero => cases hkeys
      | succ n => exact (List.cons.inj hkeys).1

theorem publish_untouched_later {id : PayloadId} {state : FlashblocksP2PState} (h : Ordered state)
    (hstate : Untouched id state) (now : Int) {payload : FlashblocksPayload}
    (hid : payload.payloadId = id) (hlimits : WithinLimits encode payload)
    (hlater : payload.index.toNat ≠ 0) :
    flashblockTx (publish encode now state payload).2 = [] ∧
      Untouched id (publish encode now state payload).1 := by
  have hfresh := hstate.resetFor hid
  have hreset := h.resetFor payload
  have hidReset := (resetFor_payloadId state payload).symm
  have hnot : ¬Completes (state.resetFor payload) payload.index.toNat := by
    simp [Completes, hfresh.1, hfresh.2, hlater]
  have hsilent := (emits_iff_completes hreset now hidReset hlimits).mpr hnot
  have hzero := completes_publish hreset now hidReset hlimits hnot 0
  rw [publish_resetFor] at hsilent hzero
  obtain ⟨n, hkeys, hcursor⟩ := publish_emitted_keys h encode now payload
  have hn : n = 0 := by
    rw [hsilent] at hkeys
    simpa using hkeys.symm
  refine ⟨hsilent, fun _ => ⟨?_, (hzero.mpr ⟨hfresh.2, .inr hfresh.1.symm⟩).1⟩⟩
  rw [hcursor, hfresh.1, hn]

/-- From such a state, something of the payload is emitted exactly when its
index 0 is delivered, and then index 0 comes first. -/
theorem run_untouched {id : PayloadId} {state : FlashblocksP2PState} (h : Ordered state)
    (hstate : Untouched id state) (calls : List (Int × FlashblocksPayload))
    (hcalls : ∀ call ∈ calls, WithinLimits encode call.2) :
    (ofPayload id (flashblockTx (run encode state calls).2) = [] ↔
        ∀ call ∈ calls, call.2.payloadId = id → call.2.index.toNat ≠ 0) ∧
      ∀ first ∈ (ofPayload id (flashblockTx (run encode state calls).2)).head?,
        payloadKey first = (id, 0) := by
  induction calls generalizing state with
  | nil => simp [ofPayload]
  | cons call rest ih =>
      have hlimits := hcalls call List.mem_cons_self
      have hrest := fun hu => ih (h.publish encode call.1 call.2) hu
        (fun c hc => hcalls c (List.mem_cons_of_mem _ hc))
      have hsplit : ofPayload id (flashblockTx (run encode state (call :: rest)).2) =
          ofPayload id (flashblockTx (publish encode call.1 state call.2).2) ++
            ofPayload id (flashblockTx (run encode (publish encode call.1 state call.2).1 rest).2) := by
        simp [run, exec_cons, publishStep]
      rw [hsplit, ofPayload_publish h]
      by_cases hid : call.2.payloadId = id
      · by_cases hzero : call.2.index.toNat = 0
        · obtain ⟨first, others, hemitted, hkey⟩ :=
            publish_untouched_first h hstate call.1 hid hlimits hzero
          simp [hemitted, hid, hzero, hkey]
        · obtain ⟨hsilent, hnext⟩ := publish_untouched_later h hstate call.1 hid hlimits hzero
          simpa [hid, hzero, hsilent] using hrest hnext
      · have hother : Untouched id (publish encode call.1 state call.2).1 := by
          intro hcurrent
          rw [publish_payloadId] at hcurrent
          exact absurd hcurrent hid
        simpa [hid] using hrest hother

/-- Leaving out the messages of other payloads changes nothing for this one. -/
def Undisturbed (encode : FlashblocksPayload → Bytes) (id : PayloadId)
    (state : FlashblocksP2PState) (calls : List (Int × FlashblocksPayload)) : Prop :=
  ofPayload id (flashblockTx (run encode state calls).2) =
    ofPayload id (flashblockTx (run encode state (callsOf id calls)).2)

/-- No flashblock of the payload that arrives after the interruption is its
first one or one that the interrupted buffer was waiting for. -/
def NothingPending (id : PayloadId) (state : FlashblocksP2PState)
    (calls : List (Int × FlashblocksPayload)) : Prop :=
  ∀ call ∈ calls, call.2.payloadId = id →
    call.2.index.toNat ≠ 0 ∧ ¬Completes state call.2.index.toNat

theorem run_emitted_payloadId {id : PayloadId} {state : FlashblocksP2PState} (h : Ordered state)
    (calls : List (Int × FlashblocksPayload)) (hcalls : ∀ call ∈ calls, call.2.payloadId = id) :
    ofPayload id (flashblockTx (run encode state calls).2) =
      flashblockTx (run encode state calls).2 := by
  induction calls generalizing state with
  | nil => rfl
  | cons call rest ih =>
      have hrest := ih (h.publish encode call.1 call.2)
        (fun c hc => hcalls c (List.mem_cons_of_mem _ hc))
      simp only [run] at hrest
      simp only [run, exec_cons, publishStep, flashblockTx_append, ofPayload_append,
        ofPayload_publish h, hcalls call List.mem_cons_self, ↓reduceIte]
      rw [hrest]

theorem run_emitted_from_cursor {id : PayloadId} {state : FlashblocksP2PState} (h : Ordered state)
    (hstate : state.payloadId = id) (calls : List (Int × FlashblocksPayload))
    (hcalls : ∀ call ∈ calls, call.2.payloadId = id) :
    ∀ emitted ∈ flashblockTx (run encode state calls).2,
      state.flashblockIndex ≤ emitted.index.toNat := by
  induction calls generalizing state with
  | nil => simp
  | cons call rest ih =>
      intro emitted hemitted
      have hid := hcalls call List.mem_cons_self
      have hreset := resetFor_of_eq (hid.trans hstate.symm)
      obtain ⟨n, hkeys, hcursor⟩ := publish_emitted_keys h encode call.1 call.2
      rw [hreset] at hkeys hcursor
      simp only [run, exec_cons, publishStep, flashblockTx_append, List.mem_append] at hemitted
      rcases hemitted with hnow | hlater
      · have hmem := List.mem_map_of_mem (f := payloadKey) hnow
        rw [hkeys] at hmem
        obtain ⟨i, hi, heq⟩ := List.mem_map.mp hmem
        have hindex : i = emitted.index.toNat := congrArg Prod.snd heq
        have hrange := List.mem_range'_1.mp hi
        omega
      · have hnext := ih (h.publish encode call.1 call.2)
          ((publish_payloadId encode call.1 state call.2).trans hid)
          (fun c hc => hcalls c (List.mem_cons_of_mem _ hc)) emitted hlater
        omega

theorem run_payloadId {id : PayloadId} {state : FlashblocksP2PState}
    (calls : List (Int × FlashblocksPayload)) (hne : calls ≠ [])
    (hcalls : ∀ call ∈ calls, call.2.payloadId = id) :
    (run encode state calls).1.payloadId = id := by
  induction calls using List.reverseRecOn with
  | nil => exact absurd rfl hne
  | append_singleton calls call _ =>
      simp only [run, exec_concat, publishStep, publish_payloadId]
      exact hcalls call (by simp)

theorem run_interrupted {id : PayloadId} {state : FlashblocksP2PState} (h : Ordered state)
    (calls : List (Int × FlashblocksPayload)) (hcalls : ∀ call ∈ calls, WithinLimits encode call.2)
    (hfirst : ∀ call ∈ calls.head?, call.2.payloadId ≠ id) :
    (ofPayload id (flashblockTx (run encode state calls).2) = [] ↔
        ∀ call ∈ calls, call.2.payloadId = id → call.2.index.toNat ≠ 0) ∧
      ∀ first ∈ (ofPayload id (flashblockTx (run encode state calls).2)).head?,
        payloadKey first = (id, 0) := by
  cases calls with
  | nil => simp [ofPayload]
  | cons call rest =>
      have hother : call.2.payloadId ≠ id := hfirst call rfl
      have hnext : Untouched id (publish encode call.1 state call.2).1 := by
        intro hcurrent
        rw [publish_payloadId] at hcurrent
        exact absurd hcurrent hother
      have hrest := run_untouched (h.publish encode call.1 call.2) hnext rest
        (fun c hc => hcalls c (List.mem_cons_of_mem _ hc))
      have hsplit : ofPayload id (flashblockTx (run encode state (call :: rest)).2) =
          ofPayload id
            (flashblockTx (run encode (publish encode call.1 state call.2).1 rest).2) := by
        simp [run, exec_cons, publishStep, ofPayload_publish h, hother]
      rw [hsplit]
      simpa [hother] using hrest

theorem callsOf_spec {id : PayloadId} {calls : List (Int × FlashblocksPayload)}
    (hcalls : ∀ call ∈ calls, WithinLimits encode call.2) :
    ∀ call ∈ callsOf id calls, call.2.payloadId = id ∧ WithinLimits encode call.2 := by
  intro call hcall
  obtain ⟨hmem, hid⟩ := List.mem_filter.mp hcall
  exact ⟨by simpa using hid, hcalls call hmem⟩

theorem nothingPending_iff {id : PayloadId} {state : FlashblocksP2PState} (h : Ordered state)
    (hstate : state.payloadId = id) (calls : List (Int × FlashblocksPayload))
    (hcalls : ∀ call ∈ calls, WithinLimits encode call.2)
    (hfirst : ∀ call ∈ calls.head?, call.2.payloadId ≠ id) :
    NothingPending id state calls ↔
      ofPayload id (flashblockTx (run encode state calls).2) = [] ∧
        flashblockTx (run encode state (callsOf id calls)).2 = [] := by
  rw [(run_interrupted h calls hcalls hfirst).1,
    run_silent_iff h hstate (callsOf id calls) (callsOf_spec hcalls)]
  simp only [NothingPending, callsOf, List.mem_filter, decide_eq_true_eq, and_imp]
  constructor
  · intro hall
    exact ⟨fun c hc hid => (hall c hc hid).1, fun c hc hid => (hall c hc hid).2⟩
  · rintro ⟨hzero, hcompletes⟩ c hc hid
    exact ⟨hzero c hc hid, hcompletes c hc hid⟩

/-- What follows the first interruption decides: the payload is emitted as if
alone when nothing pending arrives after it, and, once something has been
emitted, only then. -/
theorem undisturbed_after_interruption {id : PayloadId} {state : FlashblocksP2PState}
    (h : Ordered state) (hstate : state.payloadId = id) (calls : List (Int × FlashblocksPayload))
    (hcalls : ∀ call ∈ calls, WithinLimits encode call.2)
    (hfirst : ∀ call ∈ calls.head?, call.2.payloadId ≠ id) :
    (NothingPending id state calls → Undisturbed encode id state calls) ∧
      (0 < state.flashblockIndex → Undisturbed encode id state calls →
        NothingPending id state calls) := by
  have hmine : ∀ call ∈ callsOf id calls,
      call.2.payloadId = id ∧ WithinLimits encode call.2 := callsOf_spec hcalls
  have halone : ofPayload id (flashblockTx (run encode state (callsOf id calls)).2) =
      flashblockTx (run encode state (callsOf id calls)).2 :=
    run_emitted_payloadId h _ fun call hcall => (hmine call hcall).1
  unfold Undisturbed
  rw [halone, nothingPending_iff h hstate calls hcalls hfirst]
  constructor
  · rintro ⟨hleft, hright⟩
    rw [hleft, hright]
  · intro hcursor heq
    have hempty : ofPayload id (flashblockTx (run encode state calls).2) = [] := by
      cases hemitted : ofPayload id (flashblockTx (run encode state calls).2) with
      | nil => rfl
      | cons first others =>
          have hkey := (run_interrupted h calls hcalls hfirst).2 first (by rw [hemitted]; rfl)
          have hmem : first ∈ flashblockTx (run encode state (callsOf id calls)).2 := by
            rw [← heq, hemitted]
            exact List.mem_cons_self
          have hge := run_emitted_from_cursor h hstate (callsOf id calls)
            (fun call hcall => (hmine call hcall).1) first hmem
          have hzero : first.index.toNat = 0 := congrArg Prod.snd hkey
          omega
    exact ⟨hempty, heq ▸ hempty⟩

theorem undisturbed_behind_own {id : PayloadId} {state : FlashblocksP2PState}
    {before : List (Int × FlashblocksPayload)} (hbefore : ∀ call ∈ before, call.2.payloadId = id)
    (after : List (Int × FlashblocksPayload)) :
    Undisturbed encode id state (before ++ after) ↔
      Undisturbed encode id (run encode state before).1 after := by
  have hmine : callsOf id (before ++ after) = before ++ callsOf id after := by
    rw [callsOf, List.filter_append, callsOf]
    congr 1
    exact List.filter_eq_self.mpr fun call hcall => by simpa using hbefore call hcall
  unfold Undisturbed
  rw [hmine]
  simp only [run, exec_append, flashblockTx_append, ofPayload_append, List.append_right_inj]

/-- Late messages of other payloads, for every sequence that starts with the
payload's own: they do no harm when, after the first of them, nothing arrives
that the payload still waits for and its index 0 is not repeated; and once
something of the payload has been emitted this is the only way. -/
theorem undisturbed_when_nothing_pending (encode : FlashblocksPayload → Bytes)
    {state : FlashblocksP2PState} (hreach : Reachable (publishStep encode) {} state)
    (id : PayloadId) (calls : List (Int × FlashblocksPayload))
    (hstart : ∀ call ∈ calls.head?, call.2.payloadId = id)
    (hcalls : ∀ call ∈ calls, WithinLimits encode call.2) :
    let before := calls.takeWhile fun call => call.2.payloadId = id
    let after := calls.dropWhile fun call => call.2.payloadId = id
    let interrupted := (run encode state before).1
    (NothingPending id interrupted after → Undisturbed encode id state calls) ∧
      (0 < interrupted.flashblockIndex → Undisturbed encode id state calls →
        NothingPending id interrupted after) := by
  intro before after interrupted
  have happend : before ++ after = calls := List.takeWhile_append_dropWhile
  have hbefore : ∀ call ∈ before, call.2.payloadId = id := fun call hcall => by
    simpa using List.mem_takeWhile_imp hcall
  by_cases hnil : before = []
  · have hafter : calls = [] := by
      cases hc : calls with
      | nil => rfl
      | cons call rest =>
          have hid := hstart call (by rw [hc]; rfl)
          simp [before, hc, hid] at hnil
    subst hafter
    simp [after, NothingPending, Undisturbed, callsOf]
  have hordered : Ordered interrupted := by
    obtain ⟨inputs, rfl⟩ := hreach
    have hlater : Reachable (publishStep encode) {} interrupted :=
      ⟨inputs ++ before, by simp only [exec_append]; rfl⟩
    exact ordered_of_reachable hlater
  have hsame : Undisturbed encode id state calls ↔ Undisturbed encode id interrupted after := by
    rw [← happend]
    exact undisturbed_behind_own hbefore after
  rw [hsame]
  apply undisturbed_after_interruption hordered (run_payloadId before hnil hbefore) after
  · intro call hcall
    exact hcalls call (happend ▸ List.mem_append_right _ hcall)
  · intro call hcall
    have hnot := List.head?_dropWhile_not (fun c : Int × FlashblocksPayload => c.2.payloadId = id) calls
    simp only [after] at hcall
    rw [Option.mem_def.mp hcall] at hnot
    simpa using hnot

def timed (id : PayloadId) (index : UInt64) (timestamp : UInt64) : FlashblocksPayload :=
  { FlashblocksPayload.bare id index with
    metadata := { flashblockTimestamp := some timestamp.toNat }
    base := if index = 0 then some { timestamp } else none }

def OlderThan (older newer : FlashblocksPayload) : Prop :=
  (∀ a ∈ older.base, ∀ b ∈ newer.base, a.timestamp < b.timestamp) ∧
    ∀ a ∈ older.metadata.flashblockTimestamp, ∀ b ∈ newer.metadata.flashblockTimestamp, a < b

/-- Flashblocks 0 and 1 of payload 2 with a late flashblock of payload 1 between
them: flashblock 1 is never emitted. -/
theorem late_message_disturbs :
    ¬∀ state, Reachable (publishStep fun _ => [0]) {} state → ∀ (b : PayloadId)
      (calls : List (Int × FlashblocksPayload)),
      (∀ call ∈ calls.head?, call.2.payloadId = b) →
      (∀ call ∈ calls, WithinLimits (fun _ => [0]) call.2) →
      (∀ call ∈ calls, call.2.payloadId ≠ b →
        ∀ mine ∈ calls, mine.2.payloadId = b → OlderThan call.2 mine.2) →
      Undisturbed (fun _ => [0]) b state calls := by
  intro hall
  have h := hall {} ⟨[], rfl⟩ 2 [(20, timed 2 0 2), (21, timed 1 0 1), (22, timed 2 1 2)]
    (by simp [timed, FlashblocksPayload.bare])
    (by
      simp only [List.forall_mem_cons]
      exact ⟨⟨by decide, by decide⟩, ⟨by decide, by decide⟩, ⟨by decide, by decide⟩, by simp⟩)
    (by simp [timed, FlashblocksPayload.bare, OlderThan])
  exact absurd h (by unfold Undisturbed; decide)

theorem undisturbed_by_trailing_message :
    Undisturbed (fun _ => [0]) 2 {} [(20, timed 2 0 2), (21, timed 2 1 2), (22, timed 1 0 1)] := by
  have h := undisturbed_when_nothing_pending (fun _ => [0]) ⟨[], rfl⟩ 2
    [(20, timed 2 0 2), (21, timed 2 1 2), (22, timed 1 0 1)]
    (by simp [timed, FlashblocksPayload.bare])
    (by
      simp only [List.forall_mem_cons]
      exact ⟨⟨by decide, by decide⟩, ⟨by decide, by decide⟩, ⟨by decide, by decide⟩, by simp⟩)
  apply h.1
  intro call hcall hid
  simp [timed, FlashblocksPayload.bare] at hcall
  subst hcall
  simp at hid

end WorldChain.P2p.AcrossPayloads
