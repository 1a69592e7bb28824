import Mathlib.Algebra.BigOperators.Ring.Finset
import Mathlib.Algebra.Order.BigOperators.Group.Finset
import Mathlib.Tactic.Ring

/-!
# Reward accumulators

Rewards are shared among users in proportion to a weight. An accumulator does not touch
every user when rewards come in : it keeps one `index`, what a unit of weight has earned so
far in fractions of `scale`, and for every user the index up to which it has been settled
(`paid`) and what it was credited then.

`owed` is what all of `users` can claim, in fractions of `scale` and before any rounding.
It is the quantity to compare with the rewards that are there : distributing `x` over a
supply of weight increases it by at most `x` (`owed_distribute_le`), settling a user and
lowering a weight do not increase it, a settled user can change its weight freely
(`owed_reweigh`), and a payment takes out exactly what was credited (`owed_pay`).
-/

open Finset Function

/-- An index, and the weight, the settled index and the credit of every user. -/
@[ext] structure Accumulator (User : Type) where
  index : ℕ
  weight : User → ℕ
  paid : User → ℕ
  credit : User → ℕ

namespace Accumulator

variable {User : Type} [DecidableEq User] (scale : ℕ) (a : Accumulator User)

/-- What `u` has earned since it was settled, in fractions of the scale. -/
def pending (u : User) : ℕ :=
  a.weight u * (a.index - a.paid u)

/-- What `u` can claim, rounded down. -/
def earned (u : User) : ℕ :=
  a.pending u / scale + a.credit u

/-- What `users` can claim, in fractions of the scale. -/
def owed (users : Finset User) : ℕ :=
  ∑ u ∈ users, (a.pending u + a.credit u * scale)

/-- The index grows by `d`. -/
def advance (d : ℕ) : Accumulator User :=
  { a with index := a.index + d }

/-- The user `u` is credited what it has earned. -/
def settle (u : User) : Accumulator User :=
  { a with
    paid := update a.paid u a.index
    credit := update a.credit u (a.earned scale u) }

/-- The user `u` gets another weight. -/
def reweigh (u : User) (w : ℕ) : Accumulator User :=
  { a with weight := update a.weight u w }

/-- The user `u` is paid its credit. -/
def pay (u : User) : Accumulator User :=
  { a with credit := update a.credit u 0 }

variable {a} {users : Finset User} {u : User}

/-! ## What is owed -/

omit [DecidableEq User] in
/-- Sums of claims compare user by user. -/
theorem owed_mono {a a' : Accumulator User}
    (h : ∀ u ∈ users, a'.pending u + a'.credit u * scale ≤ a.pending u + a.credit u * scale) :
    a'.owed scale users ≤ a.owed scale users :=
  sum_le_sum h

omit [DecidableEq User] in
/-- Nothing is owed when there are no credits and the index has not moved. -/
theorem owed_eq_zero (hi : a.index = 0) (hc : ∀ u ∈ users, a.credit u = 0) :
    a.owed scale users = 0 :=
  sum_eq_zero fun u hu => by simp [pending, hi, hc u hu]

omit [DecidableEq User] in
/-- What is claimed, rounded down for every user, is at most what is owed. -/
theorem sum_earned_le : (∑ u ∈ users, a.earned scale u) * scale ≤ a.owed scale users := by
  rw [sum_mul]
  refine sum_le_sum fun u _ => ?_
  rw [earned, Nat.add_mul]
  exact Nat.add_le_add_right (Nat.div_mul_le_self _ _) _

omit [DecidableEq User] in
/-- One user's claim is at most what is owed to all. -/
theorem earned_le (hu : u ∈ users) : a.earned scale u * scale ≤ a.owed scale users :=
  le_trans (Nat.mul_le_mul_right _
    (single_le_sum (f := fun u => a.earned scale u) (fun _ _ => Nat.zero_le _) hu))
    (sum_earned_le scale)

/-! ## Operations -/

omit [DecidableEq User] in
@[simp] theorem advance_zero (a : Accumulator User) : a.advance 0 = a :=
  rfl

omit [DecidableEq User] in
/-- When the index grows by `d`, every unit of weight can claim `d` more. -/
theorem owed_advance_le (d : ℕ) :
    (a.advance d).owed scale users ≤ a.owed scale users + (∑ u ∈ users, a.weight u) * d := by
  unfold owed
  rw [sum_mul, ← sum_add_distrib]
  refine sum_le_sum fun u _ => ?_
  have hle : (a.advance d).pending u ≤ a.pending u + a.weight u * d := by
    unfold pending
    rw [← Nat.mul_add]
    refine Nat.mul_le_mul_left _ ?_
    show a.index + d - a.paid u ≤ _
    omega
  have hc : (a.advance d).credit u = a.credit u := rfl
  rw [hc]
  omega

omit [DecidableEq User] in
/-- Distributing `x` over a supply of at least the weights increases what is owed by at most
`x`. -/
theorem owed_distribute_le {supply x : ℕ} (h : ∑ u ∈ users, a.weight u ≤ supply) :
    (a.advance (x / supply)).owed scale users ≤ a.owed scale users + x := by
  refine (owed_advance_le scale _).trans (Nat.add_le_add_left ?_ _)
  calc (∑ u ∈ users, a.weight u) * (x / supply)
      ≤ supply * (x / supply) := Nat.mul_le_mul_right _ h
    _ ≤ x := Nat.mul_div_le _ _

/-- Settling a user does not change what anybody can claim. -/
theorem earned_settle (u v : User) : (a.settle scale u).earned scale v = a.earned scale v := by
  by_cases hv : v = u
  · subst hv
    simp [earned, pending, settle]
  · simp [earned, pending, settle, hv]

/-- Settling a user does not increase what is owed. -/
theorem owed_settle_le (u : User) : (a.settle scale u).owed scale users ≤ a.owed scale users := by
  refine owed_mono scale fun v _ => ?_
  by_cases hv : v = u
  · subst hv
    have hp : (a.settle scale v).pending v = 0 := by simp [settle, pending]
    have hc : (a.settle scale v).credit v = a.earned scale v := by simp [settle]
    rw [hp, hc, Nat.zero_add, earned, Nat.add_mul]
    exact Nat.add_le_add_right (Nat.div_mul_le_self _ _) _
  · simp [settle, pending, hv]

/-- A settled user has nothing pending, whatever its weight is. -/
theorem owed_reweigh (h : a.index ≤ a.paid u) (w : ℕ) :
    (a.reweigh u w).owed scale users = a.owed scale users := by
  refine sum_congr rfl fun v _ => ?_
  by_cases hv : v = u
  · subst hv
    simp [reweigh, pending, Nat.sub_eq_zero_of_le h]
  · simp [reweigh, pending, hv]

/-- The weight of a user that does not count. -/
theorem owed_reweigh_of_notMem (hu : u ∉ users) (w : ℕ) :
    (a.reweigh u w).owed scale users = a.owed scale users := by
  refine sum_congr rfl fun v hv => ?_
  have hne : v ≠ u := fun he => hu (he ▸ hv)
  simp [reweigh, pending, hne]

/-- Lowering a weight does not increase what is owed. -/
theorem owed_reweigh_le {w : ℕ} (h : w ≤ a.weight u) :
    (a.reweigh u w).owed scale users ≤ a.owed scale users := by
  refine owed_mono scale fun v _ => ?_
  by_cases hv : v = u
  · subst hv
    simp only [reweigh, pending, update_self]
    exact Nat.add_le_add_right (Nat.mul_le_mul_right _ h) _
  · simp [reweigh, pending, hv]

/-- A payment takes out what was credited. -/
theorem owed_pay (hu : u ∈ users) :
    (a.pay u).owed scale users + a.credit u * scale = a.owed scale users := by
  unfold owed
  rw [← sum_erase_add users _ hu, ← sum_erase_add users
    (fun v => a.pending v + a.credit v * scale) hu]
  have hrest : ∀ v ∈ users.erase u, (a.pay u).pending v + (a.pay u).credit v * scale =
      a.pending v + a.credit v * scale := fun v hv => by
    simp [pay, pending, ne_of_mem_erase hv]
  have hself : (a.pay u).pending u + (a.pay u).credit u * scale = a.pending u := by
    simp [pay, pending]
  rw [sum_congr rfl hrest, hself]
  ring

-- what is owed is compared by the lemmas above and never unfolded
attribute [irreducible] owed

end Accumulator
