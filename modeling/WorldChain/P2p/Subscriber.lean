import Mathlib.Data.List.TakeDrop
import WorldChain.P2p.OrderedState

/-! `FlashblocksHandle::flashblock_stream` beside the tasks that publish: the
buffer is copied under the lock, the subscription comes after it. -/
namespace WorldChain.P2p.Subscriber
open Library Library.ReorderBuffer Library.Runs Wire.Primitives Publish OrderedState

variable (encode : FlashblocksPayload → Bytes)

/-- A call of `publish` takes the lock and holds it until its last send. -/
inductive Task
  | publish (now : Int) (payload : FlashblocksPayload)
  | send (payload : FlashblocksPayload)
  deriving DecidableEq

/-- `sending` is what the call that holds the lock has still to send on
`flashblock_tx`; the lock is free when nothing is left. -/
structure Node where
  state : FlashblocksP2PState := {}
  sending : List FlashblocksPayload := []
  deriving DecidableEq

/-- Only the call that holds the lock sees the state between its sends. -/
def step (node : Node) : Task → Option Node
  | .publish now payload =>
      match node.sending with
      | [] =>
          let published := publish encode now node.state payload
          some ⟨published.1, flashblockTx published.2⟩
      | _ :: _ => none
  | .send payload =>
      match node.sending with
      | [] => none
      | next :: rest => if next = payload then some { node with sending := rest } else none

def perform (node : Node) (tasks : List Task) : Option Node := tasks.foldlM (step encode) node

def emissions (tasks : List Task) : List FlashblocksPayload :=
  tasks.filterMap fun
    | .publish _ _ => none
    | .send payload => some payload

def follow (current : PayloadId × List FlashblocksPayload) :
    Task → PayloadId × List FlashblocksPayload
  | .publish _ payload =>
      if payload.payloadId = current.1 then current else (payload.payloadId, [])
  | .send payload => (current.1, current.2 ++ [payload])

def emittedOfCurrent (tasks : List Task) : List FlashblocksPayload :=
  (tasks.foldl follow (0, [])).2

/-- A call of `flashblock_stream` and what the other tasks do before its copy,
between its two steps and after its subscription. -/
structure Subscription where
  before : List Task
  between : List Task
  after : List Task
  node : Node
  last : Node
  reached : perform encode {} before = some node
  lockFree : node.sending = []
  continues : perform encode node (between ++ after) = some last

variable {encode}

/-- The copied slots up to the first empty one, then what the receiver gets. -/
def Subscription.flashblockStream (self : Subscription encode) : List FlashblocksPayload :=
  filledPrefix self.node.state.flashblocks ++ emissions self.after

/-- What has been emitted of the current payload, then everything that follows. -/
def Subscription.complete (self : Subscription encode) : List FlashblocksPayload :=
  emittedOfCurrent self.before ++ emissions (self.between ++ self.after)

def Fits (encode : FlashblocksPayload → Bytes) (state : FlashblocksP2PState) : Prop :=
  ∀ i payload, slot state.flashblocks i = some payload → (encode payload).length ≤ maxFrame

/-- The slots before the cursor have been emitted or are being sent, and a gap
stops the cursor unless a flashblock that did not fit a frame has stopped it. -/
structure Emitted (encode : FlashblocksPayload → Bytes) (state : FlashblocksP2PState)
    (emitted : List FlashblocksPayload) : Prop where
  ordered : Ordered state
  taken : emitted = (filledPrefix state.flashblocks).take state.flashblockIndex
  caughtUp : Fits encode state → (filledPrefix state.flashblocks).length ≤ state.flashblockIndex

theorem Emitted.whole {state : FlashblocksP2PState} {emitted : List FlashblocksPayload}
    (h : Emitted encode state emitted) (hfits : Fits encode state) :
    filledPrefix state.flashblocks = emitted := by
  rw [h.taken, List.take_of_length_le (h.caughtUp hfits)]

theorem Emitted.resetFor {state : FlashblocksP2PState} {emitted : List FlashblocksPayload}
    (h : Emitted encode state emitted) (payload : FlashblocksPayload) :
    Emitted encode (state.resetFor payload)
      (if payload.payloadId = state.payloadId then emitted else []) := by
  by_cases hid : payload.payloadId = state.payloadId
  · rwa [if_pos hid, resetFor_of_eq hid]
  · obtain ⟨hcursor, hblank⟩ := resetFor_of_ne hid
    have hempty : filledPrefix (state.resetFor payload).flashblocks = [] := by
      apply List.eq_nil_of_length_eq_zero
      apply length_filledPrefix_eq (by simp)
      rw [hblank, slot_blank]
    rw [if_neg hid]
    exact ⟨h.ordered.resetFor payload, by simp [hempty], by simp [hempty]⟩

theorem Emitted.taken_cached {state : FlashblocksP2PState} {emitted : List FlashblocksPayload}
    {payload : FlashblocksPayload} (h : Emitted encode (state.resetFor payload) emitted)
    (hempty : slot (state.resetFor payload).flashblocks payload.index.toNat = none) :
    emitted =
      (filledPrefix (state.cached payload).flashblocks).take (state.cached payload).flashblockIndex := by
  obtain ⟨rest, hrest⟩ := filledPrefix_cached hempty
  rw [← hrest, cached_flashblockIndex, List.take_append_of_le_length h.ordered.cursor]
  exact h.taken

theorem Emitted.publish {state : FlashblocksP2PState} {emitted : List FlashblocksPayload}
    (h : Emitted encode state emitted) (now : Int) (payload : FlashblocksPayload) :
    Emitted encode (publish encode now state payload).1
      ((if payload.payloadId = state.payloadId then emitted else []) ++
        flashblockTx (publish encode now state payload).2) := by
  have hordered := h.ordered.publish encode now payload
  have hreset := h.resetFor payload
  rcases publish_cases encode now state payload with
    ⟨_, heq⟩ | ⟨_, _, heq⟩ | ⟨_, hempty, hlarge, heq⟩ | ⟨_, hempty, _, heq⟩
  all_goals
    rw [heq] at hordered ⊢
  · simpa using hreset
  · have hsame := filledPrefix_congr (slot_resizeFor (state.resetFor payload) payload.index.toNat)
    refine ⟨hordered, ?_, ?_⟩
    · simpa [hsame] using hreset.taken
    · simpa [hsame, Fits] using hreset.caughtUp
  · refine ⟨hordered, ?_, ?_⟩
    · simpa using hreset.taken_cached hempty
    · intro hfits
      have hslot := hfits payload.index.toNat payload (by rw [slot_cached, if_pos rfl])
      omega
  · have hready := (h.ordered.cached payload hempty).ready
    have hcursor := (h.ordered.cached payload hempty).cursor
    refine ⟨hordered, ?_, ?_⟩
    · rw [flashblockTx_cons_peer, flashblockTx_map_flashblock, advance_flashblocks,
        advance_flashblockIndex, hready, List.length_drop, Nat.add_sub_cancel' hcursor,
        List.take_length, hreset.taken_cached hempty, List.take_append_drop]
    · intro _
      rw [advance_flashblocks, advance_flashblockIndex, hready, List.length_drop]
      omega

/-- One task, with what the lock holder has still to send counted as sent. -/
theorem step_emitted {node next : Node} {current : PayloadId × List FlashblocksPayload}
    (hid : current.1 = node.state.payloadId)
    (h : Emitted encode node.state (current.2 ++ node.sending)) {task : Task}
    (hstep : step encode node task = some next) :
    (follow current task).1 = next.state.payloadId ∧
      Emitted encode next.state ((follow current task).2 ++ next.sending) := by
  cases task with
  | publish now payload =>
      cases hsending : node.sending with
      | cons first rest => simp [step, hsending] at hstep
      | nil =>
          simp only [step, hsending, Option.some.injEq] at hstep
          subst hstep
          rw [hsending, List.append_nil] at h
          have hpublish := h.publish now payload
          rw [← hid] at hpublish
          simp only [follow]
          split
          · rename_i hsame
            rw [if_pos hsame] at hpublish
            exact ⟨by simp [hsame], hpublish⟩
          · rename_i hother
            rw [if_neg hother] at hpublish
            exact ⟨by simp, hpublish⟩
  | send payload =>
      cases hsending : node.sending with
      | nil => simp [step, hsending] at hstep
      | cons first rest =>
          simp only [step, hsending, Option.ite_none_right_eq_some, Option.some.injEq] at hstep
          obtain ⟨rfl, rfl⟩ := hstep
          rw [hsending] at h
          exact ⟨hid, by simpa [follow] using h⟩

theorem perform_emitted {node last : Node} {current : PayloadId × List FlashblocksPayload}
    (hid : current.1 = node.state.payloadId)
    (h : Emitted encode node.state (current.2 ++ node.sending)) {tasks : List Task}
    (hperform : perform encode node tasks = some last) :
    Emitted encode last.state ((tasks.foldl follow current).2 ++ last.sending) := by
  induction tasks generalizing node current with
  | nil =>
      cases hperform
      exact h
  | cons task tasks ih =>
      simp only [perform, List.foldlM_cons, Option.bind_eq_bind, Option.bind_eq_some_iff] at hperform
      obtain ⟨next, hstep, hrest⟩ := hperform
      obtain ⟨hid', h'⟩ := step_emitted hid h hstep
      exact ih hid' h' hrest

theorem Subscription.copied (self : Subscription encode) (hfits : Fits encode self.node.state) :
    filledPrefix self.node.state.flashblocks = emittedOfCurrent self.before := by
  have hstart : Emitted encode {} [] := ⟨ordered_default, rfl, fun _ => Nat.le_refl _⟩
  have hemitted := @perform_emitted encode {} self.node (0, []) rfl hstart _ self.reached
  rw [self.lockFree, List.append_nil] at hemitted
  exact hemitted.whole hfits

/-- The stream has every flashblock exactly once precisely when none is sent
between the copy and the subscription. -/
theorem stream_complete_iff (encode : FlashblocksPayload → Bytes) (self : Subscription encode)
    (hfits : Fits encode self.node.state) :
    self.flashblockStream = self.complete ↔ emissions self.between = [] := by
  unfold Subscription.flashblockStream Subscription.complete
  rw [self.copied hfits]
  simp [emissions]

/-! Flashblocks of payload 1, each encoded to one byte. -/

def flashblock (index : UInt64) : FlashblocksPayload := .bare 1 index

def oneByte (_ : FlashblocksPayload) : Bytes := [0]

theorem fits_oneByte (state : FlashblocksP2PState) : Fits oneByte state := by
  intro _ _ _
  show 1 ≤ maxFrame
  decide

def outOfOrder : Subscription oneByte where
  before := [.publish 10 (flashblock 0), .send (flashblock 0)]
  between := [.publish 11 (flashblock 2)]
  after := [.publish 12 (flashblock 1), .send (flashblock 1), .send (flashblock 2)]
  node := ⟨⟨1, 0, 10, 1, [some (flashblock 0)]⟩, []⟩
  last := ⟨⟨1, 0, 12, 3, [some (flashblock 0), some (flashblock 1), some (flashblock 2)]⟩, []⟩
  reached := by decide
  lockFree := rfl
  continues := by decide

theorem stream_complete_out_of_order :
    outOfOrder.flashblockStream = outOfOrder.complete :=
  (stream_complete_iff oneByte outOfOrder (fits_oneByte _)).mpr rfl

def inOrder : Subscription oneByte where
  before := []
  between := [.publish 10 (flashblock 0), .send (flashblock 0)]
  after := [.publish 11 (flashblock 1), .send (flashblock 1)]
  node := {}
  last := ⟨⟨1, 0, 11, 2, [some (flashblock 0), some (flashblock 1)]⟩, []⟩
  reached := rfl
  lockFree := rfl
  continues := by decide

theorem start_missed : ¬∀ self : Subscription oneByte, Fits oneByte self.node.state →
    self.flashblockStream = self.complete := by
  intro hall
  have hinOrder := hall inOrder (fits_oneByte _)
  revert hinOrder
  decide

end WorldChain.P2p.Subscriber
