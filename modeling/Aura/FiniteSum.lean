import Mathlib.Algebra.BigOperators.Finprod
import Mathlib.Algebra.Order.BigOperators.Group.Finset

/-!
# Sums over a mapping

A mapping of a contract has infinitely many keys, of which finitely many are set. `total` is
the sum of its values, with a rule for the change of one of them.
-/

open Finset Function

namespace FiniteSum

variable {ι : Type} [DecidableEq ι] {f : ι → ℕ}

/-- The sum of all values. -/
noncomputable def total (f : ι → ℕ) : ℕ :=
  ∑ᶠ x, f x

omit [DecidableEq ι] in
theorem total_eq_sum {s : Finset ι} (h : support f ⊆ s) : total f = ∑ x ∈ s, f x :=
  finsum_eq_sum_of_support_subset f h

omit [DecidableEq ι] in
theorem total_zero : total (fun _ : ι => 0) = 0 :=
  finsum_zero

theorem support_update_finite (h : (support f).Finite) (a : ι) (n : ℕ) :
    (support (update f a n)).Finite := by
  refine (h.insert a).subset fun x hx => ?_
  by_cases hxa : x = a
  · exact .inl hxa
  · rw [mem_support, update_of_ne hxa] at hx
    exact .inr hx

/-- The total after a change of one value. -/
theorem total_update_add (h : (support f).Finite) (a : ι) (n : ℕ) :
    total (update f a n) + f a = total f + n := by
  have hs : support f ⊆ (insert a h.toFinset : Finset ι) := fun x hx =>
    mem_coe.2 (mem_insert_of_mem (h.mem_toFinset.2 hx))
  have hs' : support (update f a n) ⊆ (insert a h.toFinset : Finset ι) := by
    intro x hx
    by_cases hxa : x = a
    · exact mem_coe.2 (mem_insert.2 (.inl hxa))
    · rw [mem_support, update_of_ne hxa] at hx
      exact hs hx
  have ha : a ∈ insert a h.toFinset := mem_insert_self _ _
  rw [total_eq_sum hs, total_eq_sum hs', sum_update_of_mem ha, ← sum_erase_add _ f ha,
    sdiff_singleton_eq_erase]
  omega

/-- Every value is part of the total. -/
theorem le_total_of_finite (h : (support f).Finite) (a : ι) : f a ≤ total f := by
  have hu := total_update_add h a 0
  omega

end FiniteSum
