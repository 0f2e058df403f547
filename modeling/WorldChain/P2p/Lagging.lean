import WorldChain.Library.Broadcast
import WorldChain.Library.Runs
import WorldChain.P2p.Publish

/-! A consumer of `flashblock_stream` that falls behind what is emitted. -/
namespace WorldChain.P2p.Lagging
open Library.Broadcast Library.Runs Wire.Primitives Publish

/-- The number of messages to buffer; the channel may retain more. -/
def broadcastBufferCapacity : Nat := 100

/-- The stream after its subscription: what is left of the copied buffer, then
`map_while` over the receiver, which has ended after its first `None`. -/
structure FlashblockStream where
  current : List FlashblocksPayload
  receiver : Receiver FlashblocksPayload := {}
  ended : Bool := false

inductive Polled
  | item (flashblock : FlashblocksPayload)
  | pending
  | ended
  deriving DecidableEq

def FlashblockStream.pollNext (self : FlashblockStream) (capacity : Nat) :
    FlashblockStream × Polled :=
  match self.current with
  | flashblock :: rest => ({ self with current := rest }, .item flashblock)
  | [] =>
      if self.ended then (self, .ended)
      else
        let received := self.receiver.recv capacity
        let self := { self with receiver := received.1 }
        match received.2 with
        | .ok flashblock => (self, .item flashblock)
        -- `x.ok()` of the lag error
        | .lagged _ => ({ self with ended := true }, .ended)
        | .empty => (self, .pending)
        | .closed => ({ self with ended := true }, .ended)

/-- What happens around the stream; the last sender can be dropped. -/
inductive Input
  | emit (flashblock : FlashblocksPayload)
  | dropSenders
  | read

def step (capacity : Nat) (self : FlashblockStream) : Input → FlashblockStream × List Polled
  | .emit flashblock => ({ self with receiver := self.receiver.send flashblock }, [])
  | .dropSenders => ({ self with receiver := { self.receiver with closed := true } }, [])
  | .read => ((self.pollNext capacity).1, [(self.pollNext capacity).2])

/-- What a read should find: the next flashblock that is still there, and the
end only without senders. -/
def FlashblockStream.promised (self : FlashblockStream) (capacity : Nat) : Polled :=
  match self.current ++ self.receiver.unread capacity with
  | flashblock :: _ => .item flashblock
  | [] => if self.receiver.closed then .ended else .pending

def AsPromised (capacity : Nat) (reached : FlashblockStream × List Polled) (input : Input) : Prop :=
  match input with
  | .read => (reached.1.pollNext capacity).2 = reached.1.promised capacity
  | .emit _ | .dropSenders => True

/-- Nothing unread has been overwritten when the receiver is read. -/
def KeepsUp (capacity : Nat) (reached : FlashblockStream × List Polled) (input : Input) : Prop :=
  match input with
  | .read => reached.1.current = [] →
      reached.1.receiver.oldest capacity ≤ reached.1.receiver.next
  | .emit _ | .dropSenders => True

def EndedForGood (capacity : Nat) (self : FlashblockStream) : Prop :=
  self.ended → self.receiver.closed ∧ self.current = [] ∧ self.receiver.unread capacity = []

variable {capacity : Nat}

theorem pollNext_of_kept {self : FlashblockStream} (hcurrent : self.current = [])
    (hended : self.ended = false)
    (hkept : self.receiver.oldest capacity ≤ self.receiver.next) :
    (self.pollNext capacity).2 = self.promised capacity ∧
      EndedForGood capacity (self.pollNext capacity).1 := by
  unfold FlashblockStream.pollNext FlashblockStream.promised EndedForGood
  rcases recv_of_kept hkept with ⟨message, rest, hunread, hrecv⟩ | ⟨hunread, hrecv⟩
  · simp [hcurrent, hended, hunread, hrecv]
  · cases hclosed : self.receiver.closed <;> simp [hcurrent, hended, hunread, hrecv, hclosed]

theorem read_of_kept {self : FlashblockStream} (hgood : EndedForGood capacity self)
    (hkept : self.current = [] → self.receiver.oldest capacity ≤ self.receiver.next) :
    (self.pollNext capacity).2 = self.promised capacity ∧
      EndedForGood capacity (self.pollNext capacity).1 := by
  cases hcurrent : self.current with
  | cons flashblock rest =>
      have hopen : self.ended = false := by
        cases hended : self.ended with
        | false => rfl
        | true =>
            rw [(hgood hended).2.1] at hcurrent
            cases hcurrent
      simp [FlashblockStream.pollNext, FlashblockStream.promised, EndedForGood, hcurrent, hopen]
  | nil =>
      cases hended : self.ended with
      | false => exact pollNext_of_kept hcurrent hended (hkept hcurrent)
      | true =>
          obtain ⟨hclosed, _, hunread⟩ := hgood hended
          simp [FlashblockStream.pollNext, FlashblockStream.promised, EndedForGood, hcurrent, hended,
            hclosed, hunread]

theorem step_endedForGood {reached : FlashblockStream × List Polled} {input : Input}
    (hgood : EndedForGood capacity reached.1) (hkept : KeepsUp capacity reached input) :
    EndedForGood capacity (step capacity reached.1 input).1 := by
  cases input with
  | emit flashblock =>
      intro hended
      obtain ⟨hclosed, hrest⟩ := hgood hended
      simp only [step, Receiver.send, hclosed, ↓reduceIte]
      exact ⟨trivial, hrest⟩
  | dropSenders =>
      intro hended
      exact ⟨rfl, (hgood hended).2⟩
  | read => exact (read_of_kept hgood hkept).2

/-- A read that has been overtaken ends the stream. -/
theorem keepsUp_of_promised (hcapacity : 0 < capacity) {reached : FlashblockStream × List Polled}
    {input : Input} (h : AsPromised capacity reached input) : KeepsUp capacity reached input := by
  cases input with
  | emit flashblock => trivial
  | dropSenders => trivial
  | read =>
      intro hcurrent
      by_contra hlags
      have hlagged := Nat.lt_of_not_le hlags
      have hends : (reached.1.pollNext capacity).2 = .ended := by
        simp only [FlashblockStream.pollNext, hcurrent, recv_of_lagged hlagged]
        split <;> rfl
      rw [AsPromised, hends, FlashblockStream.promised, hcurrent, List.nil_append] at h
      cases hunread : reached.1.receiver.unread capacity with
      | nil => exact unread_of_lagged hcapacity hlagged hunread
      | cons flashblock rest =>
          rw [hunread] at h
          cases h

/-- Exactly when a consumer is served to the end: when it never reads after
messages that it had not read were overwritten. -/
theorem served_iff (hcapacity : broadcastBufferCapacity ≤ capacity)
    (current : List FlashblocksPayload) (inputs : List Input) :
    Meets (step capacity) (AsPromised capacity) { current } inputs ↔
      Meets (step capacity) (KeepsUp capacity) { current } inputs := by
  have hpos : 0 < capacity := Nat.lt_of_lt_of_le (by decide) hcapacity
  constructor
  · intro h before input after heq
    exact keepsUp_of_promised hpos (h before input after heq)
  · intro h before input after heq
    have hbefore : Meets (step capacity) (KeepsUp capacity) { current } before := by
      rw [heq] at h
      exact h.of_append
    have hgood := exec_invariant (fun reached => EndedForGood capacity reached.1) (by simp [EndedForGood])
      (fun _ _ hgood hkept => step_endedForGood hgood hkept) hbefore
    cases input with
    | emit flashblock => trivial
    | dropSenders => trivial
    | read => exact (read_of_kept hgood (h before .read after heq)).1

/-! A channel of 128 slots, and flashblock 0 of payload 1 over and over. -/

def emitted (times : Nat) : List Input := List.replicate times (.emit (.bare 1 0))

theorem exec_emitted (capacity times : Nat) (receiver : Receiver FlashblocksPayload)
    (hopen : receiver.closed = false) :
    exec (step capacity) { current := [], receiver } (emitted times) =
      ({ current := [], receiver := { receiver with
          sent := receiver.sent ++ List.replicate times (.bare 1 0) } }, []) := by
  induction times generalizing receiver with
  | zero => simp [emitted]
  | succ times ih =>
      have hfirst : step capacity { current := [], receiver } (.emit (.bare 1 0)) =
          ({ current := [], receiver := { receiver with
              sent := receiver.sent ++ [.bare 1 0] } }, []) := by
        simp [step, Receiver.send, hopen]
      have hrest := ih { receiver with sent := receiver.sent ++ [.bare 1 0] } hopen
      rw [emitted] at hrest
      rw [emitted, List.replicate_succ, exec_cons, hfirst, hrest, List.replicate_succ,
        List.append_assoc]
      rfl

theorem served_iff_one_read :
    Meets (step 128) (AsPromised 128) { current := [] } (emitted 1 ++ [.read]) ↔
      Meets (step 128) (KeepsUp 128) { current := [] } (emitted 1 ++ [.read]) :=
  served_iff (by decide) [] _

/-- The first read after 129 emissions ends the stream. -/
theorem slow_consumer_cut_off :
    ¬∀ capacity, broadcastBufferCapacity ≤ capacity → ∀ current inputs,
      Meets (step capacity) (AsPromised capacity) { current } inputs := by
  intro hall
  have hmeets := hall 128 (by decide) [] (emitted 129 ++ [.read])
  have hkept : KeepsUp 128 _ .read := keepsUp_of_promised (by decide) hmeets.last
  rw [exec_emitted 128 129 {} rfl] at hkept
  have hkept := hkept rfl
  simp [Receiver.oldest] at hkept

end WorldChain.P2p.Lagging
