import Aura.Locker.Ledger
import Mathlib.Algebra.BigOperators.Intervals

/-!
# AuraLocker : balances and supply of an epoch

`balanceAtEpochOf` scans the lock records of one user and `totalSupplyAtEpoch` scans the
epochs. Both add up what was locked in the sixteen weeks before the epoch (`windowSum`),
so the balances of all users add up to the supply.
-/

open Evm Finset

namespace Aura.Locker

open AuraMath

/-! ## The loop of `totalSupplyAtEpoch` -/

/-- What counts in week `k` of the amount `S j` locked in week `j`. -/
def counted (S : ℕ → ℕ) (k j : ℕ) : ℕ :=
  if k < j + 17 ∧ j < k then S j else 0

/-- The amounts locked in the sixteen weeks before week `k`. -/
def windowSum (S : ℕ → ℕ) (k : ℕ) : ℕ :=
  ∑ j ∈ range (k + 1), counted S k j

/-- The epochs in descending order, as the loop visits them. -/
theorem sumEpochs_eq {S : ℕ → ℕ} {first k : ℕ} (hk : 17 ≤ k) :
    ∀ {len acc : ℕ}, first + len ≤ k + 1 →
      acc + ∑ i ∈ range len, counted S k (first + i) < 2 ^ 256 →
      sumEpochs (k * rewardsDuration) ((k - 17) * rewardsDuration)
        (epochsFrom first len S).reverse acc =
          .ok (acc + ∑ i ∈ range len, counted S k (first + i)) := by
  intro len
  induction len with
  | zero =>
    intro acc _ _
    simp [epochsFrom, sumEpochs]
  | succ len ih =>
    intro acc hlen hb
    rw [epochsFrom_succ, List.reverse_append, List.reverse_singleton, List.singleton_append]
    simp only [sumEpochs, Nat.mul_right_cancel_iff rewardsDuration_pos,
      Nat.mul_le_mul_right_iff rewardsDuration_pos]
    rw [sum_range_succ] at hb ⊢
    by_cases heq : first + len = k
    · -- the epoch itself is skipped
      have hzero : counted S k (first + len) = 0 := if_neg (by omega)
      rw [if_pos heq, hzero, Nat.add_zero]
      rw [hzero, Nat.add_zero] at hb
      exact ih (by omega) hb
    · rw [if_neg heq]
      by_cases hold : first + len ≤ k - 17
      · -- the loop stops : this epoch and all before it are too old
        have hzero : ∀ i ∈ range len, counted S k (first + i) = 0 := fun i hi => by
          have := mem_range.1 hi
          exact if_neg (by omega)
        rw [if_pos hold, sum_eq_zero hzero, counted, if_neg (by omega)]
        rfl
      · have hc : counted S k (first + len) = S (first + len) := if_pos (by omega)
        rw [hc] at hb ⊢
        rw [if_neg hold, add, uadd_of (by omega), ok_bind, ih (by omega) (by omega)]
        congr 1
        ring

/-- The window as a sum over the weeks it consists of. -/
theorem windowSum_eq (S : ℕ → ℕ) {k : ℕ} (hk : 17 ≤ k) :
    windowSum S k = ∑ i ∈ range 16, S (k - 16 + i) := by
  have hico : ∑ i ∈ range 16, S (k - 16 + i) = ∑ j ∈ Ico (k - 16) k, counted S k j := by
    rw [sum_Ico_eq_sum_range, show k - (k - 16) = 16 by omega]
    refine sum_congr rfl fun i hi => ?_
    have := mem_range.1 hi
    exact (if_pos (by omega)).symm
  rw [hico]
  refine (sum_subset (fun j hj => ?_) fun j _ hj => ?_).symm
  · have := mem_Ico.1 hj
    exact mem_range.2 (by omega)
  · rw [mem_Ico] at hj
    exact if_neg (by omega)

/-- The window is covered by the weeks in which something was locked. -/
theorem windowSum_of_support {S : ℕ → ℕ} {first len k : ℕ} (hlen : first + len ≤ k + 1)
    (hbefore : ∀ j < first, S j = 0) (hafter : ∀ j, first + len ≤ j → j ≤ k → S j = 0) :
    ∑ i ∈ range len, counted S k (first + i) = windowSum S k := by
  have hico : ∑ i ∈ range len, counted S k (first + i) =
      ∑ j ∈ Ico first (first + len), counted S k j := by
    rw [sum_Ico_eq_sum_range, Nat.add_sub_cancel_left]
  rw [hico]
  refine sum_subset (fun j hj => ?_) fun j hj hj' => ?_
  · have := mem_Ico.1 hj
    exact mem_range.2 (by omega)
  · have hj := mem_range.1 hj
    rw [mem_Ico, not_and_or] at hj'
    have hS : S j = 0 := by
      rcases hj' with h | h
      · exact hbefore j (by omega)
      · exact hafter j (by omega) (by omega)
    unfold counted
    rw [hS, ite_self]

/-! ## The views -/

/-- The first epoch starts in the first week. -/
theorem Dated.epochStartOf_first {first n now : ℕ} {s : Storage} (h : Dated first n now s) (e : ℕ) :
    epochStartOf s e = mul e rewardsDuration >>= add (first * rewardsDuration) := by
  have h0 : s.ledger.epochs[0]? =
      some ⟨lockedIn s.ledger.userLocks first, first * rewardsDuration⟩ := by
    simp [h.epochs, epochsFrom, List.range'_succ]
  unfold epochStartOf
  rw [index_eq_ok.2 h0, ok_bind]

/-- The epoch with id `e` is the week `first + e`. -/
theorem Dated.epochStartOf_eq {first n now e E : ℕ} {s : Storage} (h : Dated first n now s)
    (hE : epochStartOf s e = .ok E) : E = (first + e) * rewardsDuration := by
  rw [h.epochStartOf_first] at hE
  obtain ⟨d, hd, hE⟩ := bind_eq_ok.1 hE
  obtain ⟨-, rfl⟩ := umul_eq_ok.1 hd
  obtain ⟨-, rfl⟩ := uadd_eq_ok.1 hE
  exact (Nat.add_mul _ _ _).symm

/-- Nothing was locked before the first week. -/
theorem Dated.lockedIn_eq_zero_of_lt {first n now j : ℕ} {s : Storage} (h : Dated first n now s)
    (hj : j < first) : lockedIn s.ledger.userLocks j = 0 :=
  sum_eq_zero fun u _ => amountAt_eq_zero fun l hl he => by
    have := Nat.le_of_mul_le_mul_right (he ▸ h.since u l hl) rewardsDuration_pos
    omega

/-- All that is active in week `k` was locked in the sixteen weeks before it. -/
theorem Dated.sum_activeAmount {first n now k : ℕ} {s : Storage} (h : Dated first n now s)
    (hk : 17 ≤ k) : ∑ u, activeAmount (s.ledger.userLocks u) (k * rewardsDuration) =
      windowSum (lockedIn s.ledger.userLocks) k := by
  rw [windowSum_eq _ hk, sum_congr rfl fun u _ => (h.dated u).activeAmount_eq k, sum_comm]
  refine sum_congr rfl fun i _ => ?_
  rw [lockedIn, show k - 16 + i + 17 = k + 1 + i by omega]

theorem Dated.windowSum_lt {first n now k : ℕ} {s : Storage} (h : Dated first n now s)
    (hk : 17 ≤ k) : windowSum (lockedIn s.ledger.userLocks) k < 2 ^ 256 := by
  have hle := sum_le_card_nsmul (range 16) (fun i => lockedIn s.ledger.userLocks (k - 16 + i))
    (2 ^ 224) fun i _ => (h.bounded _).le
  rw [windowSum_eq _ hk]
  rw [card_range, smul_eq_mul] at hle
  exact hle.trans_lt (by norm_num)

theorem Dated.activeAmount_lt {first n now k : ℕ} {s : Storage} (h : Dated first n now s)
    (hk : 17 ≤ k) (u : Address) :
    activeAmount (s.ledger.userLocks u) (k * rewardsDuration) < 2 ^ 256 := by
  have hle := le_sum (fun u => activeAmount (s.ledger.userLocks u) (k * rewardsDuration)) u
  rw [h.sum_activeAmount hk] at hle
  exact hle.trans_lt (h.windowSum_lt hk)

theorem sub_lockDuration {k : ℕ} (hk : 17 ≤ k) :
    sub (k * rewardsDuration) lockDuration = .ok ((k - 17) * rewardsDuration) := by
  obtain ⟨j, rfl⟩ := Nat.exists_eq_add_of_le' hk
  rw [sub, Nat.add_mul, ← lockDuration_eq, usub_add_right, Nat.add_sub_cancel]

/-- `balanceAtEpochOf` is the active amount of the user. -/
theorem Dated.balanceAtEpochOf_eq {first n now e : ℕ} {s : Storage} (h : Dated first n now s)
    (hk : 17 ≤ first + e) (hE : epochStartOf s e = .ok ((first + e) * rewardsDuration))
    (hlt : (first + e) * rewardsDuration < now) (u : Address) :
    balanceAtEpochOf s now e u =
      .ok (activeAmount (s.ledger.userLocks u) ((first + e) * rewardsDuration)) := by
  have hcut : (first + e - 17) * rewardsDuration + lockDuration =
      (first + e) * rewardsDuration := by
    rw [lockDuration_eq, ← Nat.add_mul, Nat.sub_add_cancel hk]
  unfold balanceAtEpochOf
  rw [hE, ok_bind, require_of hlt, ok_bind, sub_lockDuration hk, ok_bind]
  exact (h.dated u).sumLocks_eq hcut (h.activeAmount_lt hk u)

/-- `totalSupplyAtEpoch` is the sum over the window of the epoch. -/
theorem Dated.totalSupplyAtEpoch_eq {first n now e : ℕ} {s : Storage} (h : Dated first n now s)
    (hk : 17 ≤ first + e) (hE : epochStartOf s e = .ok ((first + e) * rewardsDuration))
    (hlt : (first + e) * rewardsDuration < now) :
    totalSupplyAtEpoch s now e = .ok (windowSum (lockedIn s.ledger.userLocks) (first + e)) := by
  have hlen : s.ledger.epochs.length = n + 1 := by simp [h.epochs, epochsFrom]
  have hsub : sub s.ledger.epochs.length 1 = .ok n := by rw [hlen]; exact usub_add_right n 1
  set i := if n < e then n else e with hi
  have htake : s.ledger.epochs.take (i + 1) =
      epochsFrom first (i + 1) (lockedIn s.ledger.userLocks) := by
    rw [h.epochs, epochsFrom, ← List.map_take,
      List.take_range'_of_length_ge (by split_ifs at hi <;> omega)]
    rfl
  have hsum : ∑ j ∈ range (i + 1), counted (lockedIn s.ledger.userLocks) (first + e) (first + j) =
      windowSum (lockedIn s.ledger.userLocks) (first + e) := by
    refine windowSum_of_support ?_ (fun j => h.lockedIn_eq_zero_of_lt) fun j hj hje => ?_
    · split_ifs at hi <;> omega
    · exact h.lockedIn_eq_zero (by split_ifs at hi <;> omega)
  unfold totalSupplyAtEpoch
  rw [hE, ok_bind, require_of hlt, ok_bind, sub_lockDuration hk, ok_bind, hsub, ok_bind]
  show sumEpochs _ _ (s.ledger.epochs.take (i + 1)).reverse 0 = _
  rw [htake, sumEpochs_eq hk (by split_ifs at hi <;> omega) (by
    rw [hsum, Nat.zero_add]; exact h.windowSum_lt hk), hsum, Nat.zero_add]

/-! ## The balances add up to the supply -/

/-- For an epoch that has begun, the balances of all users add up to the supply. -/
theorem sum_balanceAtEpochOf_eq_totalSupplyAtEpoch {log : List Event} {w₀ w : World} {e E : ℕ}
    (h₀ : Deployed w₀) (hold : lockDuration ≤ w₀.now) (hs : Steps w₀ log w) (hfit : Fits w.now)
    (hE : epochStartOf w.locker e = .ok E) (hlt : E < w.now) :
    ∃ balance : Address → ℕ, (∀ u, balanceAtEpochOf w.locker w.now e u = .ok (balance u)) ∧
      totalSupplyAtEpoch w.locker w.now e = .ok (∑ u, balance u) := by
  obtain ⟨n, hd⟩ := (h₀.ledgerInv hs).dated hfit
  have hfirst : 17 ≤ week w₀.now := by
    rw [lockDuration_eq] at hold
    exact (Nat.le_div_iff_mul_le rewardsDuration_pos).2 hold
  obtain rfl := hd.epochStartOf_eq hE
  refine ⟨_, fun u => hd.balanceAtEpochOf_eq (by omega) hE hlt u, ?_⟩
  rw [hd.sum_activeAmount (by omega)]
  exact hd.totalSupplyAtEpoch_eq (by omega) hE hlt

/-- The account 1 locks in week 20 and is asked about in week 22. -/
theorem sum_balanceAtEpochOf_eq_totalSupplyAtEpoch_run :
    ∃ w : World, ∃ balance : Address → ℕ,
      (∀ u, balanceAtEpochOf w.locker w.now 1 u = .ok (balance u)) ∧
        totalSupplyAtEpoch w.locker w.now 1 = .ok (∑ u, balance u) :=
  let start := 20 * rewardsDuration
  let log : List Event :=
    [⟨start, 1, .lock 1 5⟩, ⟨start + 2 * rewardsDuration, 1, .checkpointEpoch⟩]
  ⟨(World.initial start).after log,
    sum_balanceAtEpochOf_eq_totalSupplyAtEpoch (World.initial_deployed (by decide)) (by decide)
      (.after (by decide +kernel)) (by decide +kernel)
      (show epochStartOf _ 1 = .ok (21 * rewardsDuration) by decide +kernel) (by decide +kernel)⟩

/-- A lock whose unlock time does not fit in `uint32` makes `balanceAtEpochOf` underflow. -/
theorem balanceAtEpochOf_underflow :
    ¬∀ {log : List Event} {w₀ w : World} {e E : ℕ}, Deployed w₀ → lockDuration ≤ w₀.now →
      Steps w₀ log w → epochStartOf w.locker e = .ok E → E < w.now →
      ∃ balance : Address → ℕ, (∀ u, balanceAtEpochOf w.locker w.now e u = .ok (balance u)) ∧
        totalSupplyAtEpoch w.locker w.now e = .ok (∑ u, balance u) := by
  intro h
  let start := 7085 * rewardsDuration
  let log : List Event := [⟨start, 1, .lock 1 5⟩, ⟨start + rewardsDuration, 1, .checkpointEpoch⟩]
  have hrun : Steps (World.initial start) log ((World.initial start).after log) :=
    .after (by decide +kernel)
  obtain ⟨balance, hb, -⟩ := h (World.initial_deployed (by decide)) (by decide) hrun
    (show epochStartOf _ 0 = .ok start by decide +kernel) (by decide +kernel)
  have hrev : balanceAtEpochOf ((World.initial start).after log).locker
      ((World.initial start).after log).now 0 1 = .error .underflow := by decide +kernel
  have hb := hb 1
  rw [hrev] at hb
  cases hb

end Aura.Locker
