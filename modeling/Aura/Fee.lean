import Mathlib.Tactic.Ring
import Mathlib.Tactic.Linarith
import Mathlib.Data.Nat.Basic

/-!
# Fees

A fee of `p` parts of `D`, rounded down. `net` is what is left of an amount, and `gross` the
amount that leaves a given rest, rounded down too. The rest of a gross amount is what was
asked for (`net_gross`); the gross amount of a rest can be one more than what it was the rest
of, which depends on the remainder of the fee alone (`gross_net`).
-/

namespace Fee

/-- What is left of `A`. -/
def net (D p A : ℕ) : ℕ :=
  A - A * p / D

/-- What leaves `a`. -/
def gross (D p a : ℕ) : ℕ :=
  D * a / (D - p)

variable {D p A B a : ℕ}

theorem fee_le (hp : p ≤ D) (A : ℕ) : A * p / D ≤ A :=
  Nat.div_le_of_le_mul (by rw [mul_comm D]; exact Nat.mul_le_mul_left A hp)

theorem net_le (D p A : ℕ) : net D p A ≤ A :=
  Nat.sub_le _ _

/-- The rest in parts of `D`, but for the remainder of the fee. -/
theorem mul_net (hp : p ≤ D) (A : ℕ) : D * net D p A = A * (D - p) + A * p % D := by
  have hle := Nat.mul_le_mul_left D (fee_le hp A)
  have hdiv := Nat.div_add_mod (A * p) D
  have hA := Nat.mul_le_mul_left A hp
  unfold net
  rw [Nat.mul_sub, Nat.mul_sub, mul_comm D A]
  omega

/-- What is left of more is more. -/
theorem net_mono (hp : p ≤ D) (hD : 0 < D) (h : A ≤ B) : net D p A ≤ net D p B := by
  have hlt : D * net D p A < D * (net D p B + 1) := by
    rw [Nat.mul_add, mul_net hp, mul_net hp, mul_one]
    have hmod := Nat.mod_lt (A * p) hD
    have hmul := Nat.mul_le_mul_right (D - p) h
    omega
  exact Nat.le_of_lt_succ (Nat.lt_of_mul_lt_mul_left hlt)

/-- What is left grows by no more than the amount. -/
theorem net_add_le (h : A ≤ B) : net D p B + A ≤ net D p A + B := by
  have hfee : A * p / D ≤ B * p / D := Nat.div_le_div_right (Nat.mul_le_mul_right p h)
  unfold net
  omega

/-- What is left of the gross amount is what was asked for. -/
theorem net_gross (hp : p < D) (a : ℕ) : net D p (gross D p a) = a := by
  have hq : 0 < D - p := Nat.sub_pos_of_lt hp
  have hle := Nat.div_mul_le_self (D * a) (D - p)
  have hlt := Nat.lt_div_mul_add hq (a := D * a)
  have hnet := mul_net hp.le (gross D p a)
  have hmod := Nat.mod_lt (gross D p a * p) (Nat.zero_lt_of_lt hp)
  unfold gross at hnet hmod ⊢
  refine Nat.le_antisymm ?_ ?_
  · refine Nat.le_of_lt_succ (Nat.lt_of_mul_lt_mul_left (a := D) ?_)
    rw [hnet, Nat.mul_succ]
    omega
  · refine Nat.le_of_lt_succ (Nat.lt_of_mul_lt_mul_left (a := D) ?_)
    rw [Nat.mul_succ, hnet]
    omega

/-- Without a fee. -/
theorem gross_zero (hD : 0 < D) (a : ℕ) : gross D 0 a = a :=
  Nat.mul_div_cancel_left a hD

theorem gross_mono (h : a ≤ A) : gross D p a ≤ gross D p A :=
  Nat.div_le_div_right (Nat.mul_le_mul_left D h)

/-- The gross amount of a rest. -/
theorem gross_net (hp : p < D) (A : ℕ) :
    gross D p (net D p A) = A + A * p % D / (D - p) := by
  unfold gross
  rw [mul_net hp.le, mul_comm A, Nat.mul_add_div (Nat.sub_pos_of_lt hp)]

/-- The gross amount of a rest is no more than what it was the rest of exactly if the
remainder of the fee is less than what the fee leaves of `D`. -/
theorem gross_net_le_iff (hp : p < D) (A : ℕ) :
    gross D p (net D p A) ≤ A ↔ A * p % D < D - p := by
  rw [gross_net hp, add_le_iff_nonpos_right, Nat.le_zero,
    Nat.div_eq_zero_iff_lt (Nat.sub_pos_of_lt hp)]

end Fee
