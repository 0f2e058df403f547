import Mathlib.Data.List.Basic

/-! A broadcast channel of bounded capacity as one of its receivers sees it. A
message that is overwritten before it is read is reported once, as a lag; the
receiver then goes on with the oldest message that is left. -/
namespace WorldChain.Library.Broadcast

variable {α : Type}

/-- `sent` is everything sent since the subscription, `next` the message to be
read next; without senders the channel is closed. -/
structure Receiver (α : Type) where
  sent : List α := []
  next : Nat := 0
  closed : Bool := false

inductive Recv (α : Type)
  | ok (message : α)
  | lagged (skipped : Nat)
  | empty
  | closed

def Receiver.oldest (self : Receiver α) (capacity : Nat) : Nat := self.sent.length - capacity

def Receiver.unread (self : Receiver α) (capacity : Nat) : List α :=
  self.sent.drop (max self.next (self.oldest capacity))

def Receiver.send (self : Receiver α) (message : α) : Receiver α :=
  if self.closed then self else { self with sent := self.sent ++ [message] }

def Receiver.recv (self : Receiver α) (capacity : Nat) : Receiver α × Recv α :=
  if self.next < self.oldest capacity then
    ({ self with next := self.oldest capacity }, .lagged (self.oldest capacity - self.next))
  else
    match self.sent[self.next]? with
    | some message => ({ self with next := self.next + 1 }, .ok message)
    | none => (self, if self.closed then .closed else .empty)

variable {self : Receiver α} {capacity : Nat}

theorem unread_of_kept (h : self.oldest capacity ≤ self.next) :
    self.unread capacity = self.sent.drop self.next := by
  rw [Receiver.unread, Nat.max_eq_left h]

theorem recv_of_kept (h : self.oldest capacity ≤ self.next) :
    (∃ message rest, self.unread capacity = message :: rest ∧
      self.recv capacity = ({ self with next := self.next + 1 }, .ok message)) ∨
    (self.unread capacity = [] ∧
      self.recv capacity = (self, if self.closed then .closed else .empty)) := by
  rw [unread_of_kept h, Receiver.recv, if_neg (Nat.not_lt_of_le h)]
  by_cases hlt : self.next < self.sent.length
  · refine .inl ⟨self.sent[self.next], self.sent.drop (self.next + 1), ?_, ?_⟩
    · exact List.drop_eq_getElem_cons hlt
    · rw [List.getElem?_eq_getElem hlt]
  · have hpast : self.sent.length ≤ self.next := by omega
    refine .inr ⟨List.drop_eq_nil_of_le hpast, ?_⟩
    rw [List.getElem?_eq_none hpast]

theorem unread_of_lagged (hcapacity : 0 < capacity) (h : self.next < self.oldest capacity) :
    self.unread capacity ≠ [] := by
  have holdest : self.oldest capacity < self.sent.length := by
    unfold Receiver.oldest at h ⊢
    omega
  rw [Receiver.unread, Nat.max_eq_right (Nat.le_of_lt h)]
  intro hnil
  have hlength := congrArg List.length hnil
  rw [List.length_drop, List.length_nil] at hlength
  omega

theorem recv_of_lagged (h : self.next < self.oldest capacity) :
    self.recv capacity =
      ({ self with next := self.oldest capacity }, .lagged (self.oldest capacity - self.next)) := by
  rw [Receiver.recv, if_pos h]

end WorldChain.Library.Broadcast
