import Mathlib.Data.Fintype.Basic
import WorldChain.P2p.Honest

/-! Two payloads that drive each other around a network for ever: each one that arrives makes
a node forget the other. -/
namespace WorldChain.P2p.Circulation
open Library.Runs Wire.Alloy Publish Peers AcrossPayloads Honest

deriving instance DecidableEq for Link

def triangle (n m : Fin 3) : Bool := n ≠ m

variable {ι : Type}

/-- Two payloads are published at `a` and reach `b`; on their way to `c` they are slow. -/
def opening (a b c : ι) : List (Event ι) :=
  [.publishNew a 1 (timed 1 0 1), .publishNew a 1 (timed 2 0 2), .outbound a c, .outbound a c,
    .outbound a b, .outbound a b, .deliver a b, .deliver a b]

/-- `b` handles both payloads of `a`, sends nothing back and both on to `c`. -/
def hop (a b c : ι) : List (Event ι) :=
  [.outbound b a, .inbound b a 1, .outbound b a, .inbound b a 1, .outbound b a, .inbound b a 1,
    .outbound b c, .outbound b c, .deliver b c, .deliver b c]

def round (a b c : ι) : List (Event ι) := hop a b c ++ hop b c a ++ hop c a b

theorem network_ext {left right : Network ι} (hstates : ∀ n, left.states n = right.states n)
    (hlinks : ∀ n m, left.links n m = right.links n m)
    (hwires : ∀ n m, left.wires n m = right.wires n m) : left = right := by
  cases left
  cases right
  congr
  · funext n
    exact hstates n
  · funext n m
    exact hlinks n m
  · funext n m
    exact hwires n m

/-- After a first round the next one changes nothing, and every node has sent and emitted in it. -/
theorem round_again :
    let start := exec (Network.step sampleCodecs triangle) {} (opening 0 1 2 ++ round 0 1 2)
    let again := exec (Network.step sampleCodecs triangle) start.1 (round 0 1 2)
    (∀ n, again.1.states n = start.1.states n) ∧ (∀ n m, again.1.links n m = start.1.links n m) ∧
      (∀ n m, again.1.wires n m = start.1.wires n m) ∧
      reputationChanges start.2 = [] ∧ reputationChanges again.2 = [] ∧
      ∀ n, 0 < (peerTx (sentBy n again.2)).length ∧
        0 < (flashblockTx (sentBy n again.2)).length := by
  -- One evaluation for all of them: each part alone takes the whole run again.
  decide +kernel

theorem round_returns :
    let start := exec (Network.step sampleCodecs triangle) {} (opening 0 1 2 ++ round 0 1 2)
    (exec (Network.step sampleCodecs triangle) start.1 (round 0 1 2)).1 = start.1 :=
  network_ext round_again.1 round_again.2.1 round_again.2.2.1

theorem length_rounds {α : Type} {outputs : List (Output (Fin 3))} {n : Fin 3}
    {channel : List Sent → List α}
    (happend : ∀ left right, channel (left ++ right) = channel left ++ channel right)
    (hpos : 0 < (channel (sentBy n outputs)).length) (k : Nat) :
    k ≤ (channel (sentBy n (List.replicate k outputs).flatten)).length := by
  induction k with
  | zero => exact Nat.zero_le _
  | succ k ih =>
      rw [List.replicate_succ, List.flatten_cons, sentBy_append, happend, List.length_append]
      omega

theorem publishedNew_rounds {inputs : List (Event ι)} (h : publishedNew inputs = []) (k : Nat) :
    publishedNew (List.replicate k inputs).flatten = [] := by
  induction k with
  | zero => rfl
  | succ k ih =>
      rw [List.replicate_succ, List.flatten_cons]
      unfold publishedNew at h ih ⊢
      rw [List.filterMap_append, h, ih]
      rfl

theorem reputationChanges_rounds {outputs : List (Output ι)} (h : reputationChanges outputs = [])
    (k : Nat) : reputationChanges (List.replicate k outputs).flatten = [] := by
  induction k with
  | zero => rfl
  | succ k ih =>
      rw [List.replicate_succ, List.flatten_cons, reputationChanges_append, h, ih]
      rfl

/-- There is no bound on what two publications can cause: between three honest nodes, each of
two flashblocks published once, every node sends to its peers and emits to its consumers as
often as one likes, and nobody is penalised for it. -/
theorem circulates (bound : Nat) : ∃ events : List (Event (Fin 3)),
    publishedNew events = [(0, timed 1 0 1), (0, timed 2 0 2)] ∧
      reputationChanges (exec (Network.step sampleCodecs triangle) {} events).2 = [] ∧
      ∀ n, bound ≤
          (peerTx (sentBy n (exec (Network.step sampleCodecs triangle) {} events).2)).length ∧
        bound ≤
          (flashblockTx (sentBy n (exec (Network.step sampleCodecs triangle) {} events).2)).length := by
  obtain ⟨-, -, -, hopening, hround, hcounted⟩ := round_again
  refine ⟨opening 0 1 2 ++ round 0 1 2 ++ (List.replicate bound (round 0 1 2)).flatten, ?_, ?_, ?_⟩
  · unfold publishedNew
    rw [List.filterMap_append]
    exact congrArg _ (publishedNew_rounds rfl bound)
  · rw [exec_append, exec_replicate round_returns, reputationChanges_append, hopening,
      reputationChanges_rounds hround, List.append_nil]
  · intro n
    rw [exec_append, exec_replicate round_returns, sentBy_append, peerTx_append,
      flashblockTx_append, List.length_append, List.length_append]
    exact ⟨Nat.le_add_left_of_le (length_rounds peerTx_append (hcounted n).1 bound),
      Nat.le_add_left_of_le (length_rounds flashblockTx_append (hcounted n).2 bound)⟩

end WorldChain.P2p.Circulation
