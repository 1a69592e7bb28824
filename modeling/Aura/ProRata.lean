import Mathlib.Algebra.BigOperators.Group.Finset.Basic
import Mathlib.Algebra.BigOperators.Ring.Finset
import Mathlib.Algebra.Order.BigOperators.Group.Finset
import Mathlib.Tactic.Ring
import Mathlib.Tactic.Linarith

/-!
# Dividing an amount in proportion

An amount `r` is divided over weights `u`, each getting `⌊r * u / s⌋` of it, where `s` is at
least the sum of the weights. All together get at most `r`; if the weights add up to `s`,
they get less than one unit short of it for each weight.
-/

open Finset

namespace ProRata

/-- The portion of the weight `u` out of `s`. -/
def portion (r s u : ℕ) : ℕ :=
  r * u / s

variable {r s : ℕ}

theorem portion_mul_le (r s u : ℕ) : portion r s u * s ≤ r * u :=
  Nat.div_mul_le_self _ _

theorem portion_le (u : ℕ) (hu : u ≤ s) : portion r s u ≤ r := by
  rcases Nat.eq_zero_or_pos s with rfl | hs
  · simp [portion]
  · exact Nat.div_le_of_le_mul (by rw [Nat.mul_comm s r]; exact Nat.mul_le_mul_left r hu)

/-- The portions of a list of weights. -/
theorem sum_portion_mul_le (r s : ℕ) :
    ∀ us : List ℕ, (us.map (portion r s)).sum * s ≤ r * us.sum
  | [] => by simp
  | u :: us => by
    have ih := sum_portion_mul_le r s us
    have hu := portion_mul_le r s u
    simp only [List.map_cons, List.sum_cons]
    rw [add_mul, mul_add]
    omega

theorem sum_portion_le {us : List ℕ} (hs : 0 < s) (h : us.sum ≤ s) :
    (us.map (portion r s)).sum ≤ r :=
  Nat.le_of_mul_le_mul_right
    ((sum_portion_mul_le r s us).trans (Nat.mul_le_mul_left r h)) hs

/-- What is lost to the rounding of each portion. -/
theorem le_sum_portion_add (r : ℕ) (hs : 0 < s) :
    ∀ us : List ℕ, r * us.sum + us.length ≤ ((us.map (portion r s)).sum + us.length) * s
  | [] => by simp
  | u :: us => by
    have ih := le_sum_portion_add r hs us
    have hu : r * u + 1 ≤ (portion r s u + 1) * s := by
      rw [mul_comm _ s]
      exact Nat.lt_mul_div_succ (r * u) hs
    simp only [List.map_cons, List.sum_cons, List.length_cons]
    rw [show portion r s u + (us.map (portion r s)).sum + (us.length + 1) =
      portion r s u + 1 + ((us.map (portion r s)).sum + us.length) by ring, add_mul, mul_add]
    omega

theorem lt_sum_portion_add {us : List ℕ} (hs : 0 < s) (h : us.sum = s) :
    r < (us.map (portion r s)).sum + us.length := by
  have hle := le_sum_portion_add r hs us
  have hlen : us ≠ [] := by
    rintro rfl
    simp at h
    omega
  have hpos := List.length_pos_of_ne_nil hlen
  refine lt_of_not_ge fun hge => ?_
  have := Nat.mul_le_mul_right s hge
  rw [h] at hle
  omega

/-- The portions of a finite family of weights, where `n` covers all of them. -/
theorem sum_portion_finset_le_of {ι : Type} (t : Finset ι) (u : ι → ℕ) {n : ℕ} (hs : 0 < s)
    (h : r * ∑ i ∈ t, u i ≤ n * s) : ∑ i ∈ t, portion r s (u i) ≤ n := by
  refine Nat.le_of_mul_le_mul_right ?_ hs
  rw [sum_mul]
  calc ∑ i ∈ t, portion r s (u i) * s ≤ ∑ i ∈ t, r * u i :=
        sum_le_sum fun i _ => portion_mul_le r s (u i)
    _ = r * ∑ i ∈ t, u i := (mul_sum t u r).symm
    _ ≤ n * s := h

theorem sum_portion_finset_le {ι : Type} (t : Finset ι) (u : ι → ℕ) (hs : 0 < s)
    (h : ∑ i ∈ t, u i ≤ s) : ∑ i ∈ t, portion r s (u i) ≤ r :=
  sum_portion_finset_le_of t u hs (Nat.mul_le_mul_left r h)

/-- What is lost to the rounding of each portion of a finite family. -/
theorem le_sum_portion_finset_add {ι : Type} (t : Finset ι) (u : ι → ℕ) (r : ℕ) (hs : 0 < s) :
    r * ∑ i ∈ t, u i + t.card ≤ (∑ i ∈ t, portion r s (u i) + t.card) * s := by
  have hone : ∀ i ∈ t, r * u i + 1 ≤ (portion r s (u i) + 1) * s := fun i _ => by
    rw [mul_comm _ s]
    exact Nat.lt_mul_div_succ (r * u i) hs
  calc r * ∑ i ∈ t, u i + t.card = ∑ i ∈ t, (r * u i + 1) := by
        rw [sum_add_distrib, mul_sum, card_eq_sum_ones]
    _ ≤ ∑ i ∈ t, (portion r s (u i) + 1) * s := sum_le_sum hone
    _ = (∑ i ∈ t, portion r s (u i) + t.card) * s := by
        rw [← sum_mul, sum_add_distrib, card_eq_sum_ones]

end ProRata
