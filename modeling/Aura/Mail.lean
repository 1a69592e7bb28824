import Mathlib.Algebra.BigOperators.Group.List.Basic
import Mathlib.Algebra.BigOperators.Ring.Finset
import Mathlib.Algebra.Order.BigOperators.Group.List

/-!
# Messages that are processed once

`Mail M` is what was sent and not processed : messages in flight, which arrive in any order,
and messages whose processing failed, which wait to be retried. `outstanding f` adds up what
they carry. Sending adds to it, processing takes out what the message carries, a failure
leaves it.
-/

namespace Aura

/-- Messages that were not processed. -/
structure Mail (M : Type) where
  /-- Sent, and neither received nor failed. -/
  inFlight : List M
  /-- Failed, and not retried with success. -/
  failed : List M

namespace Mail

variable {M : Type}

def empty : Mail M where
  inFlight := []
  failed := []

/-- Messages are sent. -/
def send (b : Mail M) (ms : List M) : Mail M :=
  { b with inFlight := ms ++ b.inFlight }

section

variable [DecidableEq M]

/-- A message arrives and is processed. -/
def deliver (b : Mail M) (m : M) : Mail M :=
  { b with inFlight := b.inFlight.erase m }

/-- A message arrives and is stored. -/
def fail (b : Mail M) (m : M) : Mail M where
  inFlight := b.inFlight.erase m
  failed := m :: b.failed

/-- A stored message is processed. -/
def retry (b : Mail M) (m : M) : Mail M :=
  { b with failed := b.failed.erase m }

end

/-- The sum of `f` over the messages that were not processed. -/
def outstanding (f : M → ℕ) (b : Mail M) : ℕ :=
  (b.inFlight.map f).sum + (b.failed.map f).sum

variable {b : Mail M} {m : M} (f : M → ℕ)

@[simp] theorem outstanding_empty : outstanding f empty = 0 :=
  rfl

theorem outstanding_send (b : Mail M) (ms : List M) :
    outstanding f (b.send ms) = outstanding f b + (ms.map f).sum := by
  unfold outstanding send
  dsimp only
  rw [List.map_append, List.sum_append]
  omega

/-- Messages that carry nothing do not matter. -/
theorem outstanding_send_of_forall (b : Mail M) {ms : List M} (h : ∀ m ∈ ms, f m = 0) :
    outstanding f (b.send ms) = outstanding f b := by
  have hsum : (ms.map f).sum = 0 := by
    refine List.sum_eq_zero fun x hx => ?_
    obtain ⟨m, hm, rfl⟩ := List.mem_map.1 hx
    exact h m hm
  rw [outstanding_send, hsum, Nat.add_zero]

variable [DecidableEq M]

theorem outstanding_deliver (h : m ∈ b.inFlight) :
    outstanding f (b.deliver m) + f m = outstanding f b := by
  have hsum := List.sum_map_erase f h
  unfold outstanding deliver
  dsimp only
  omega

theorem outstanding_retry (h : m ∈ b.failed) :
    outstanding f (b.retry m) + f m = outstanding f b := by
  have hsum := List.sum_map_erase f h
  unfold outstanding retry
  dsimp only
  omega

theorem outstanding_fail (h : m ∈ b.inFlight) :
    outstanding f (b.fail m) = outstanding f b := by
  have hsum := List.sum_map_erase f h
  unfold outstanding fail
  dsimp only
  rw [List.map_cons, List.sum_cons]
  omega

end Mail

end Aura
