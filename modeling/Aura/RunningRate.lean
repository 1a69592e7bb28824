import Aura.ProRata

/-!
# Paying out at a running rate

A pot of `A` is paid out against claims on a total of `B`. Each claim `x` is paid at the rate
`⌊A * S / B⌋ / S` of what is left, rounded down, and takes itself and its payment away from
`B` and `A`. So a claim rounds twice, and changes the rate of the next.

Rounding stays in the pot : what is left per claim never falls (`pays_price_le`), so no claim
is paid at less than the first rate (`portion_le_pays`). However a total is split and
ordered, the payments differ by their rounding only (`sum_pays_le_add`).
-/

namespace RunningRate

open ProRata

/-- The rate of `A` over `B`, at scale `S`. -/
def rate (S A B : ℕ) : ℕ :=
  portion A B S

/-- The payment of a claim `x`. -/
def pay (S A B x : ℕ) : ℕ :=
  portion (rate S A B) S x

/-- The payments of claims that are paid one after the other. -/
def pays (S : ℕ) : ℕ → ℕ → List ℕ → List ℕ
  | _, _, [] => []
  | A, B, x :: xs => pay S A B x :: pays S (A - pay S A B x) (B - x) xs

/-- What is left per claim does not fall from `A / B` to `A' / B'`. -/
def PriceLe (A B A' B' : ℕ) : Prop :=
  A * B' ≤ A' * B

variable {S A B A' B' A'' B'' x : ℕ}

/-! ## The price -/

theorem PriceLe.trans (h : PriceLe A B A' B') (h' : PriceLe A' B' A'' B'') (hB : B'' ≤ B') :
    PriceLe A B A'' B'' := by
  unfold PriceLe at *
  rcases Nat.eq_zero_or_pos B' with rfl | hpos
  · rw [Nat.le_zero.1 hB, Nat.mul_zero]
    exact Nat.zero_le _
  refine Nat.le_of_mul_le_mul_right ?_ hpos
  calc A * B'' * B' = A * B' * B'' := by ring
    _ ≤ A' * B * B'' := Nat.mul_le_mul_right _ h
    _ = A' * B'' * B := by ring
    _ ≤ A'' * B' * B := Nat.mul_le_mul_right _ h'
    _ = A'' * B * B' := by ring

theorem rate_mul_le (S A B : ℕ) : rate S A B * B ≤ A * S :=
  portion_mul_le A B S

/-- The rate follows the price. -/
theorem PriceLe.rate_le (h : PriceLe A B A' B') (hB : 0 < B) (hB' : 0 < B') :
    rate S A B ≤ rate S A' B' := by
  refine (Nat.le_div_iff_mul_le hB').2 (Nat.le_of_mul_le_mul_right ?_ hB)
  calc rate S A B * B' * B = rate S A B * B * B' := by ring
    _ ≤ A * S * B' := Nat.mul_le_mul_right _ (rate_mul_le S A B)
    _ = A * B' * S := by ring
    _ ≤ A' * B * S := Nat.mul_le_mul_right _ h
    _ = A' * S * B := by ring

/-! ## One payment -/

/-- A claim is paid at most its part of the pot. -/
theorem pay_mul_le (hS : 0 < S) (A B x : ℕ) : pay S A B x * B ≤ A * x := by
  refine Nat.le_of_mul_le_mul_right ?_ hS
  calc pay S A B x * B * S = pay S A B x * S * B := by ring
    _ ≤ rate S A B * x * B := Nat.mul_le_mul_right _ (portion_mul_le _ _ _)
    _ = rate S A B * B * x := by ring
    _ ≤ A * S * x := Nat.mul_le_mul_right _ (rate_mul_le S A B)
    _ = A * x * S := by ring

theorem pay_le (hS : 0 < S) (hx : x ≤ B) : pay S A B x ≤ A := by
  rcases Nat.eq_zero_or_pos B with rfl | hB
  · simp [pay, rate, portion]
  · exact Nat.le_of_mul_le_mul_right ((pay_mul_le hS A B x).trans (Nat.mul_le_mul_left A hx)) hB

theorem pay_price_le (hS : 0 < S) (A B x : ℕ) : PriceLe A B (A - pay S A B x) (B - x) := by
  have hpay := pay_mul_le hS A B x
  unfold PriceLe
  rw [Nat.mul_sub, Nat.sub_mul]
  exact Nat.sub_le_sub_left hpay _

/-! ## All payments -/

theorem sum_pays_le (hS : 0 < S) : ∀ {xs : List ℕ} {A B : ℕ}, xs.sum ≤ B → (pays S A B xs).sum ≤ A
  | [], _, _, _ => Nat.zero_le _
  | x :: xs, A, B, h => by
    rw [List.sum_cons] at h
    have hpay := pay_le (A := A) hS ((Nat.le_add_right x xs.sum).trans h)
    have ih := sum_pays_le hS (A := A - pay S A B x) (Nat.le_sub_of_add_le' h)
    rw [pays, List.sum_cons]
    omega

theorem pays_price_le (hS : 0 < S) : ∀ (xs : List ℕ) (A B : ℕ),
    PriceLe A B (A - (pays S A B xs).sum) (B - xs.sum)
  | [], _, _ => le_rfl
  | x :: xs, A, B => by
    have ih := pays_price_le hS xs (A - pay S A B x) (B - x)
    rw [Nat.sub_sub, Nat.sub_sub] at ih
    rw [pays, List.sum_cons, List.sum_cons]
    exact (pay_price_le hS A B x).trans ih (Nat.sub_le_sub_left (Nat.le_add_right _ _) _)

/-- No total is paid more than its part of the pot. -/
theorem sum_pays_mul_le {xs : List ℕ} (hS : 0 < S) (h : xs.sum ≤ B) :
    (pays S A B xs).sum * B ≤ A * xs.sum := by
  have hle := sum_pays_le (A := A) hS h
  have hprice := pays_price_le hS xs A B
  unfold PriceLe at hprice
  rw [Nat.mul_sub, Nat.sub_mul] at hprice
  have hmul : (pays S A B xs).sum * B ≤ A * B := Nat.mul_le_mul_right B hle
  have hmul' : A * xs.sum ≤ A * B := Nat.mul_le_mul_left A h
  omega

/-- Every claim is paid at least at a rate that the first one had. -/
theorem portion_le_pays (hS : 0 < S) {r : ℕ} : ∀ {xs : List ℕ} {A B : ℕ}, xs.sum ≤ B →
    (0 < B → r ≤ rate S A B) → List.Forall₂ (fun x p => portion r S x ≤ p) xs (pays S A B xs)
  | [], _, _, _, _ => .nil
  | x :: xs, A, B, h, hr => by
    rw [List.sum_cons] at h
    refine .cons ?_ (portion_le_pays hS (Nat.le_sub_of_add_le' h) fun hpos => ?_)
    · rcases Nat.eq_zero_or_pos B with rfl | hB
      · -- nothing can be claimed
        have hx : x = 0 := by omega
        simp [hx, portion]
      · exact Nat.div_le_div_right (Nat.mul_le_mul_right x (hr hB))
    · have hB : 0 < B := hpos.trans_le (Nat.sub_le _ _)
      exact (hr hB).trans ((pay_price_le hS A B x).rate_le hB hpos)

/-- What a total is short of its part of the pot. -/
theorem le_sum_pays_mul {xs : List ℕ} (hS : 0 < S) (hB : 0 < B) (h : xs.sum ≤ B) :
    A * xs.sum * S ≤ ((pays S A B xs).sum + xs.length) * S * B + xs.sum * B := by
  have hrate : A * S ≤ (rate S A B + 1) * B := by
    rw [Nat.mul_comm _ B]
    exact (Nat.lt_mul_div_succ (A * S) hB).le
  have hle : (xs.map (portion (rate S A B) S)).sum ≤ (pays S A B xs).sum :=
    List.Forall₂.sum_le_sum
      (List.forall₂_map_left_iff.2 (portion_le_pays hS h fun _ => le_rfl))
  have hround := le_sum_portion_add (rate S A B) hS xs
  calc A * xs.sum * S = A * S * xs.sum := by ring
    _ ≤ (rate S A B + 1) * B * xs.sum := Nat.mul_le_mul_right _ hrate
    _ = rate S A B * xs.sum * B + xs.sum * B := by ring
    _ ≤ ((pays S A B xs).sum + xs.length) * S * B + xs.sum * B := by
        refine Nat.add_le_add_right (Nat.mul_le_mul_right B ?_) _
        exact (Nat.le_of_add_right_le hround).trans (Nat.mul_le_mul_right S (by omega))

/-- However a total is split and ordered, it is paid the same but for the rounding : one for
each claim of the other split, and one for every `S` of the total. -/
theorem sum_pays_le_add {xs ys : List ℕ} (hS : 0 < S) (hB : 0 < B) (h : xs.sum ≤ B)
    (hsum : xs.sum = ys.sum) :
    (pays S A B xs).sum ≤ (pays S A B ys).sum + ys.length + ys.sum / S := by
  have hle := sum_pays_mul_le (A := A) hS h
  have hge := le_sum_pays_mul (A := A) hS hB (hsum ▸ h)
  have hmul : (pays S A B xs).sum * S * B ≤
      (((pays S A B ys).sum + ys.length) * S + ys.sum) * B := by
    calc (pays S A B xs).sum * S * B = (pays S A B xs).sum * B * S := by ring
      _ ≤ A * xs.sum * S := Nat.mul_le_mul_right S hle
      _ = A * ys.sum * S := by rw [hsum]
      _ ≤ ((pays S A B ys).sum + ys.length) * S * B + ys.sum * B := hge
      _ = (((pays S A B ys).sum + ys.length) * S + ys.sum) * B := by ring
  have hscaled := Nat.le_of_mul_le_mul_right hmul hB
  rw [← Nat.mul_add_div hS, Nat.mul_comm S]
  exact (Nat.le_div_iff_mul_le hS).2 hscaled

end RunningRate
