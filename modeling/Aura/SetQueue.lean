import Mathlib.Algebra.BigOperators.Group.Finset.Basic
import Mathlib.Algebra.BigOperators.Ring.Finset
import Mathlib.Algebra.Group.Action.Defs
import Mathlib.Algebra.Order.BigOperators.Group.Finset
import Mathlib.Data.Finset.Basic
import Mathlib.Data.List.Nodup
import Mathlib.Logic.Function.Basic

/-!
# Queues kept as sets

A queue that remembers its entries in a set cannot tell two equal entries apart. `Kept` says
what such a queue has after a history of entries that were put in and taken out, where no
entry that was taken out is put in again.

The weight that was put in is the weight that was taken out and the weight that is still in
the set exactly if no entry of a positive weight was put in twice (`Kept.sum_eq_iff`).
-/

open Function Finset

namespace SetQueue

variable {α : Type} [DecidableEq α]

/-- The set `queue` after `queued` was put in and `processed` taken out. -/
structure Kept (queue : α → Bool) (queued processed : List α) : Prop where
  set_iff : ∀ t, queue t = true ↔ t ∈ queued ∧ t ∉ processed
  subset : processed ⊆ queued
  nodup : processed.Nodup

variable {queue : α → Bool} {queued processed : List α} {t : α}

omit [DecidableEq α] in
theorem Kept.empty (h : ∀ t, queue t = false) : Kept queue [] [] where
  set_iff t := by simp [h t]
  subset := List.Subset.refl _
  nodup := List.nodup_nil

theorem Kept.put (h : Kept queue queued processed) (ht : t ∉ processed) :
    Kept (update queue t true) (t :: queued) processed where
  set_iff u := by
    by_cases hu : u = t
    · simp [hu, ht]
    · rw [update_of_ne hu, h.set_iff, List.mem_cons, or_iff_right hu]
  subset := List.subset_cons_of_subset _ h.subset
  nodup := h.nodup

theorem Kept.take (h : Kept queue queued processed) (ht : queue t = true) :
    Kept (update queue t false) queued (t :: processed) where
  set_iff u := by
    by_cases hu : u = t
    · simp [hu]
    · rw [update_of_ne hu, h.set_iff, List.mem_cons, not_or]
      exact and_congr_right fun _ => (and_iff_right hu).symm
  subset := List.cons_subset.2 ⟨((h.set_iff t).1 ht).1, h.subset⟩
  nodup := List.nodup_cons.2 ⟨((h.set_iff t).1 ht).2, h.nodup⟩

/-- The weight of what is in the set, of the entries that were put in. -/
def pending (w : α → ℕ) (queue : α → Bool) (queued : List α) : ℕ :=
  ∑ t ∈ queued.toFinset with queue t = true, w t

/-- What was taken out and what is still in the set is everything that was put in, each
entry once. -/
theorem Kept.sum_add_pending (h : Kept queue queued processed) (w : α → ℕ) :
    (processed.map w).sum + pending w queue queued = ∑ t ∈ queued.toFinset, w t := by
  have hfilter : queued.toFinset.filter (fun t => queue t = true) =
      queued.toFinset \ processed.toFinset := by
    ext t
    rw [mem_filter, mem_sdiff, List.mem_toFinset, List.mem_toFinset, h.set_iff]
    exact and_congr_right fun ht => and_iff_right ht
  have hsub : processed.toFinset ⊆ queued.toFinset := fun t ht =>
    List.mem_toFinset.2 (h.subset (List.mem_toFinset.1 ht))
  unfold pending
  rw [hfilter, ← List.sum_toFinset w h.nodup, add_comm]
  exact sum_sdiff hsub

/-- No weight is lost exactly if no entry with a weight was put in twice. -/
theorem Kept.sum_eq_iff (h : Kept queue queued processed) (w : α → ℕ) :
    (queued.map w).sum = (processed.map w).sum + pending w queue queued ↔
      ∀ t ∈ queued, w t ≠ 0 → queued.count t = 1 := by
  rw [h.sum_add_pending w, Finset.sum_list_map_count, eq_comm, sum_eq_sum_iff_of_le]
  · refine forall_congr' fun t => ?_
    rw [List.mem_toFinset]
    refine forall_congr' fun ht => ?_
    rw [smul_eq_mul]
    constructor
    · intro heq hw
      exact Nat.eq_of_mul_eq_mul_right (Nat.pos_of_ne_zero hw) (by rw [← heq, Nat.one_mul])
    · intro hone
      by_cases hw : w t = 0
      · rw [hw, Nat.mul_zero]
      · rw [hone hw, Nat.one_mul]
  · intro t ht
    rw [smul_eq_mul]
    exact Nat.le_mul_of_pos_left _ (List.count_pos_iff.2 (List.mem_toFinset.1 ht))

end SetQueue
