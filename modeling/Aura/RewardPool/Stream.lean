import Aura.Accumulator
import Aura.RewardPool.AuraBalRewardPool

/-!
# RewardPool : the stream

The pool is an accumulator of rewards over its stakers. Every function settles, and then
changes one stake or pays one reward, so what the stakers other than the zero account can
claim, the pending penalty and what is still to be streamed are covered by the balance
(`Solvent`).
-/

open Evm Function Finset

namespace Aura.RewardPool

variable {w w' : World} {sender account : Address}

/-- The fractions of a token that the pool counts in, `1e18`. -/
def scale : ℕ := 10 ^ 18

/-- The pool as an accumulator. -/
def acc (p : AuraBalRewardPool) : Accumulator Address :=
  ⟨p.rewardPerTokenStored, p._balances, p.userRewardPerTokenPaid, p.rewards⟩

/-- The accounts that are settled. -/
def stakers : Finset Address :=
  univ.erase 0

/-- By how much the reward per token has grown since the last update. -/
def growth (w : World) : ℕ :=
  if w.pool._totalSupply = 0 then 0
  else (w.lastTimeRewardApplicable - w.pool.lastUpdateTime) * w.pool.rewardRate * scale /
    w.pool._totalSupply

theorem lastTimeRewardApplicable_eq (w : World) :
    w.lastTimeRewardApplicable = Nat.min w.now w.pool.periodFinish :=
  AuraMath.min_eq _ _

/-! ## What each function does -/

theorem rewardPerToken_eq_ok {r : ℕ} (h : w.rewardPerToken = .ok r) :
    r = w.pool.rewardPerTokenStored + growth w := by
  unfold World.rewardPerToken at h
  unfold growth
  dsimp only at h
  split_ifs at h ⊢ with hs
  · exact (Except.ok.inj h).symm
  · obtain ⟨x₁, h₁, h⟩ := bind_eq_ok.1 h
    obtain ⟨x₂, h₂, h⟩ := bind_eq_ok.1 h
    obtain ⟨x₃, h₃, h⟩ := bind_eq_ok.1 h
    obtain ⟨x₄, h₄, h⟩ := bind_eq_ok.1 h
    obtain ⟨-, rfl⟩ := usub_eq_ok.1 h₁
    obtain ⟨-, rfl⟩ := umul_eq_ok.1 h₂
    obtain ⟨-, rfl⟩ := umul_eq_ok.1 h₃
    obtain ⟨-, rfl⟩ := udiv_eq_ok.1 h₄
    exact (uadd_eq_ok.1 h).2

theorem earned_eq_ok {e : ℕ} (h : w.earned account = .ok e) :
    e = ((acc w.pool).advance (growth w)).earned scale account := by
  obtain ⟨r, hr, h⟩ := bind_eq_ok.1 h
  obtain ⟨x, hx, h⟩ := bind_eq_ok.1 h
  obtain ⟨y, hy, h⟩ := bind_eq_ok.1 h
  obtain ⟨z, hz, h⟩ := bind_eq_ok.1 h
  obtain rfl := rewardPerToken_eq_ok hr
  obtain ⟨-, rfl⟩ := usub_eq_ok.1 hx
  obtain ⟨-, rfl⟩ := umul_eq_ok.1 hy
  obtain ⟨-, rfl⟩ := udiv_eq_ok.1 hz
  exact (uadd_eq_ok.1 h).2

/-- The accumulator after `updateReward` : the zero account is not settled. -/
def settled (w : World) (account : Address) : Accumulator Address :=
  if account = 0 then (acc w.pool).advance (growth w)
  else ((acc w.pool).advance (growth w)).settle scale account

/-- The pool with another reward per token, and other paid rewards and credits. -/
def World.withRewards (w : World) (a : Accumulator Address) : World :=
  { w with
    pool := { w.pool with
      rewardPerTokenStored := a.index
      lastUpdateTime := w.lastTimeRewardApplicable
      rewards := a.credit
      userRewardPerTokenPaid := a.paid } }

/-- Right after an update nothing has grown. -/
theorem growth_withRewards (a : Accumulator Address) : growth (w.withRewards a) = 0 := by
  unfold growth
  split_ifs with hs
  · rfl
  · have hsub : (w.withRewards a).lastTimeRewardApplicable - (w.withRewards a).pool.lastUpdateTime =
        0 := Nat.sub_self _
    rw [hsub, Nat.zero_mul, Nat.zero_mul, Nat.zero_div]

theorem updateReward_eq_ok (h : w.updateReward account = .ok w') :
    w' = w.withRewards (settled w account) := by
  obtain ⟨r, hr, h⟩ := bind_eq_ok.1 h
  obtain rfl := rewardPerToken_eq_ok hr
  unfold World.settle at h
  unfold settled
  dsimp only at h
  by_cases ha : account = 0
  · rw [if_neg (not_not.2 ha)] at h
    rw [if_pos ha]
    exact (Except.ok.inj h).symm
  · rw [if_pos ha] at h
    rw [if_neg ha]
    obtain ⟨e, he, h⟩ := bind_eq_ok.1 h
    have he' := earned_eq_ok he
    have hg : growth { w with pool := { w.pool with
        rewardPerTokenStored := w.pool.rewardPerTokenStored + growth w
        lastUpdateTime := w.lastTimeRewardApplicable } } = 0 :=
      growth_withRewards ((acc w.pool).advance (growth w))
    rw [hg, Accumulator.advance_zero] at he'
    rw [← Except.ok.inj h, he']
    rfl

theorem acc_withRewards_settled :
    acc (w.withRewards (settled w account)).pool = settled w account := by
  unfold settled
  split_ifs
  · rfl
  · rfl

theorem stakeFor_eq_ok {n : ℕ} (h : w.stakeFor sender account n = .ok w') : ∃ w₁ t,
    w.updateReward account = .ok w₁ ∧
      w₁.stakingToken.transferFrom w₁.pool.self sender w₁.pool.self n = .ok t ∧
      w' = { w₁ with
        stakingToken := t
        pool := { w₁.pool with
          _totalSupply := w₁.pool._totalSupply + n
          _balances := update w₁.pool._balances account (w₁.pool._balances account + n) } } := by
  obtain ⟨w₁, h₁, h⟩ := bind_eq_ok.1 h
  obtain ⟨-, h⟩ := require_bind_eq_ok.1 h
  obtain ⟨s, hs, h⟩ := bind_eq_ok.1 h
  obtain ⟨b, hb, h⟩ := bind_eq_ok.1 h
  obtain ⟨t, ht, h⟩ := bind_eq_ok.1 h
  obtain ⟨-, rfl⟩ := uadd_eq_ok.1 hs
  obtain ⟨-, rfl⟩ := uadd_eq_ok.1 hb
  exact ⟨w₁, t, h₁, ht, (Except.ok.inj h).symm⟩

theorem unstake_eq_ok {n : ℕ} (h : w.unstake sender n = .ok w') : ∃ w₁ t,
    w.updateReward sender = .ok w₁ ∧ n ≤ w₁.pool._totalSupply ∧ n ≤ w₁.pool._balances sender ∧
      w₁.stakingToken.transfer w₁.pool.self sender n = .ok t ∧
      w' = { w₁ with
        stakingToken := t
        pool := { w₁.pool with
          _totalSupply := w₁.pool._totalSupply - n
          _balances := update w₁.pool._balances sender (w₁.pool._balances sender - n) } } := by
  obtain ⟨w₁, h₁, h⟩ := bind_eq_ok.1 h
  obtain ⟨-, h⟩ := require_bind_eq_ok.1 h
  obtain ⟨s, hs, h⟩ := bind_eq_ok.1 h
  obtain ⟨b, hb, h⟩ := bind_eq_ok.1 h
  obtain ⟨t, ht, h⟩ := bind_eq_ok.1 h
  obtain ⟨hsle, rfl⟩ := usub_eq_ok.1 hs
  obtain ⟨hble, rfl⟩ := usub_eq_ok.1 hb
  exact ⟨w₁, t, h₁, hsle, hble, ht, (Except.ok.inj h).symm⟩

/-- A payment takes the reward from the pool, but for a penalty that is kept. -/
theorem payOut_eq_ok {n : ℕ} {b : Bool} {r : Erc20 Address × ℕ}
    (hall : w.rewardToken.Unapproved w.pool.self) (h : w.payOut sender n b = .ok r) :
    ∃ penalty, penalty ≤ n ∧ r.2 = w.pool.pendingPenalty + penalty ∧
      r.1.Unapproved w.pool.self ∧
      w.rewardToken.balanceOf w.pool.self ≤ r.1.balanceOf w.pool.self + (n - penalty) := by
  unfold World.payOut at h
  cases b with
  | true =>
    rw [if_pos rfl] at h
    obtain ⟨t₁, h₁, h⟩ := bind_eq_ok.1 h
    obtain ⟨t₂, h₂, h⟩ := bind_eq_ok.1 h
    cases h
    obtain ⟨x, hx, h₁⟩ := bind_eq_ok.1 h₁
    obtain ⟨-, rfl⟩ := uadd_eq_ok.1 hx
    rw [hall, Nat.zero_add] at h₁
    obtain ⟨-, hb, hall'⟩ := hall.approve_pull h₁ (lockerPull_eq_ok h₂).2
    refine ⟨0, Nat.zero_le _, rfl, hall', ?_⟩
    rw [hb]
    exact le_move_add _ _ _ _ _
  | false =>
    rw [if_neg Bool.false_ne_true] at h
    obtain ⟨x, hx, h⟩ := bind_eq_ok.1 h
    obtain ⟨q, hq, h⟩ := bind_eq_ok.1 h
    obtain ⟨y, hy, h⟩ := bind_eq_ok.1 h
    obtain ⟨t, ht, h⟩ := bind_eq_ok.1 h
    cases h
    obtain ⟨-, rfl⟩ := umul_eq_ok.1 hx
    obtain ⟨-, rfl⟩ := uadd_eq_ok.1 hq
    obtain ⟨hle, rfl⟩ := usub_eq_ok.1 hy
    exact ⟨_, hle, rfl, hall.transfer ht, Erc20.le_transfer_add ht _⟩

/-! ## The invariant -/

/-- The pool holds its stakes and its rewards. -/
structure Solvent (w : World) : Prop where
  staking_unapproved : w.stakingToken.Unapproved w.pool.self
  reward_unapproved : w.rewardToken.Unapproved w.pool.self
  supply : ∑ a, w.pool._balances a = w.pool._totalSupply
  staked : w.pool._totalSupply ≤ w.stakingToken.balanceOf w.pool.self
  updated : w.pool.lastUpdateTime ≤ w.now
  finish : w.pool.lastUpdateTime ≤ w.pool.periodFinish
  paid : ∀ a, w.pool.userRewardPerTokenPaid a ≤ w.pool.rewardPerTokenStored
  idle : w.pool.rewardRate = 0 → w.pool.rewardPerTokenStored = 0 ∧
    (∀ a, w.pool.rewards a = 0) ∧ w.pool.pendingPenalty = 0
  funded : (acc w.pool).owed scale stakers +
      (w.pool.pendingPenalty +
        w.pool.rewardRate * (w.pool.periodFinish - w.pool.lastUpdateTime)) * scale ≤
    w.rewardToken.balanceOf w.pool.self * scale

theorem mem_stakers {a : Address} : a ∈ stakers ↔ a ≠ 0 := by
  simp [stakers]

/-- The stakers weigh at most the supply. -/
theorem Solvent.weight_le (h : Solvent w) :
    ∑ a ∈ stakers, (acc w.pool).weight a ≤ w.pool._totalSupply := by
  rw [← h.supply]
  exact sum_le_sum_of_subset (erase_subset _ _)

/-- What the growth of the reward per token adds to what is owed. -/
theorem Solvent.owed_advance_le (h : Solvent w) :
    ((acc w.pool).advance (growth w)).owed scale stakers ≤ (acc w.pool).owed scale stakers +
      (w.lastTimeRewardApplicable - w.pool.lastUpdateTime) * w.pool.rewardRate * scale := by
  unfold growth
  split_ifs with hs
  · rw [Accumulator.advance_zero]
    exact Nat.le_add_right _ _
  · exact Accumulator.owed_distribute_le scale h.weight_le

theorem Solvent.le_lastTime (h : Solvent w) :
    w.pool.lastUpdateTime ≤ w.lastTimeRewardApplicable := by
  rw [lastTimeRewardApplicable_eq]
  exact Nat.le_min.2 ⟨h.updated, h.finish⟩

theorem lastTime_le (w : World) : w.lastTimeRewardApplicable ≤ w.pool.periodFinish := by
  rw [lastTimeRewardApplicable_eq]
  exact Nat.min_le_right _ _

/-- What was streamed since the last update and what is still to be streamed. -/
theorem Solvent.stream_split (h : Solvent w) :
    w.pool.rewardRate * (w.pool.periodFinish - w.pool.lastUpdateTime) =
      (w.lastTimeRewardApplicable - w.pool.lastUpdateTime) * w.pool.rewardRate +
        w.pool.rewardRate * (w.pool.periodFinish - w.lastTimeRewardApplicable) := by
  have h₁ := h.le_lastTime
  have h₂ := lastTime_le w
  rw [Nat.mul_comm (_ - _) w.pool.rewardRate, ← Nat.mul_add]
  congr 1
  omega

theorem owed_settled_le (w : World) (a : Address) : (settled w a).owed scale stakers ≤
    ((acc w.pool).advance (growth w)).owed scale stakers := by
  unfold settled
  split_ifs
  · exact le_rfl
  · exact Accumulator.owed_settle_le scale a

/-- The rewards cover the claims after the growth since the last update. -/
theorem Solvent.funded_advance (h : Solvent w) :
    ((acc w.pool).advance (growth w)).owed scale stakers +
        (w.pool.pendingPenalty +
          w.pool.rewardRate * (w.pool.periodFinish - w.lastTimeRewardApplicable)) * scale ≤
      w.rewardToken.balanceOf w.pool.self * scale := by
  have h₁ := h.owed_advance_le
  have h₂ := h.funded
  rw [h.stream_split] at h₂
  simp only [Nat.add_mul] at h₂ ⊢
  omega

theorem growth_of_idle (h : w.pool.rewardRate = 0) : growth w = 0 := by
  unfold growth
  rw [h, Nat.mul_zero, Nat.zero_mul, Nat.zero_div, ite_self]

theorem settled_index (w : World) (account : Address) :
    (settled w account).index = w.pool.rewardPerTokenStored + growth w := by
  unfold settled
  split_ifs <;> rfl

theorem settled_paid (w : World) (ha : account ≠ 0) (a : Address) :
    (settled w account).paid a = if a = account then w.pool.rewardPerTokenStored + growth w
      else w.pool.userRewardPerTokenPaid a := by
  unfold settled
  rw [if_neg ha]
  exact update_apply _ _ _ a

theorem Solvent.settled_paid_le (h : Solvent w) (a : Address) :
    (settled w account).paid a ≤ (settled w account).index := by
  have hle : w.pool.userRewardPerTokenPaid a ≤ w.pool.rewardPerTokenStored + growth w :=
    (h.paid a).trans (Nat.le_add_right _ _)
  rw [settled_index]
  by_cases ha : account = 0
  · unfold settled
    rw [if_pos ha]
    exact hle
  · rw [settled_paid w ha]
    split_ifs
    · exact le_rfl
    · exact hle

/-- Without a rate nothing is earned. -/
theorem Solvent.settled_idle (h : Solvent w) (hr : w.pool.rewardRate = 0) :
    (settled w account).index = 0 ∧ ∀ a, (settled w account).credit a = 0 := by
  obtain ⟨hs, hc, -⟩ := h.idle hr
  have hidx : w.pool.rewardPerTokenStored + growth w = 0 := by rw [hs, growth_of_idle hr]
  refine ⟨(settled_index w account).trans hidx, fun a => ?_⟩
  unfold settled
  split_ifs with ha
  · exact hc a
  · refine (update_apply _ _ _ a).trans ?_
    split_ifs
    · have hi : ((acc w.pool).advance (growth w)).index = 0 := hidx
      have hcr : ((acc w.pool).advance (growth w)).credit account = 0 := hc account
      rw [Accumulator.earned, Accumulator.pending, hi, hcr, Nat.zero_sub, Nat.mul_zero,
        Nat.zero_div]
    · exact hc a

/-- `updateReward` keeps the invariant. -/
theorem Solvent.updateReward (h : Solvent w) (hx : w.updateReward account = .ok w') :
    Solvent w' := by
  obtain rfl := updateReward_eq_ok hx
  refine ⟨h.staking_unapproved, h.reward_unapproved, h.supply, h.staked, ?_, lastTime_le w,
    h.settled_paid_le, fun hr => ?_, ?_⟩
  · show w.lastTimeRewardApplicable ≤ w.now
    rw [lastTimeRewardApplicable_eq]
    exact Nat.min_le_left _ _
  · obtain ⟨hi, hc⟩ := h.settled_idle hr
    exact ⟨hi, hc, (h.idle hr).2.2⟩
  · rw [acc_withRewards_settled]
    exact (Nat.add_le_add_right (owed_settled_le w account) _).trans h.funded_advance

/-- An account that was just settled has been paid up to the index. -/
theorem updateReward_paid (hx : w.updateReward account = .ok w') (ha : account ≠ 0) :
    w'.pool.rewardPerTokenStored ≤ w'.pool.userRewardPerTokenPaid account := by
  obtain rfl := updateReward_eq_ok hx
  show (settled w account).index ≤ (settled w account).paid account
  rw [settled_index, settled_paid w ha, if_pos rfl]

/-! ## Stakes -/

/-- Stakes do not matter for what is owed, once the account is settled. -/
theorem owed_reweigh {p : AuraBalRewardPool} (n : ℕ)
    (ha : account ≠ 0 → p.rewardPerTokenStored ≤ p.userRewardPerTokenPaid account) :
    ((acc p).reweigh account n).owed scale stakers = (acc p).owed scale stakers := by
  by_cases hz : account = 0
  · exact Accumulator.owed_reweigh_of_notMem scale (fun hm => mem_stakers.1 hm hz) n
  · exact Accumulator.owed_reweigh scale (ha hz) n

/-- The staked tokens arrive. -/
theorem Solvent.stakeFor {n : ℕ} (h : Solvent w) (hs : sender ≠ w.pool.self)
    (hx : w.stakeFor sender account n = .ok w') : Solvent w' := by
  obtain ⟨w₁, t, h₁, ht, rfl⟩ := stakeFor_eq_ok hx
  have hsol := h.updateReward h₁
  have hself : w₁.pool.self = w.pool.self := by rw [updateReward_eq_ok h₁]; rfl
  rw [← hself] at hs
  obtain ⟨-, -, hb, -⟩ := Erc20.transferFrom_eq_ok ht
  refine ⟨hsol.staking_unapproved.transferFrom ht, hsol.reward_unapproved, ?_, ?_, hsol.updated,
    hsol.finish, hsol.paid, hsol.idle, ?_⟩
  · show ∑ a, update w₁.pool._balances account _ a = w₁.pool._totalSupply + n
    rw [sum_update_of_add, hsol.supply]
  · show w₁.pool._totalSupply + n ≤ t.balanceOf w₁.pool.self
    rw [hb, move_dst _ _ hs]
    exact Nat.add_le_add_right hsol.staked n
  · have ho := owed_reweigh (w₁.pool._balances account + n) (updateReward_paid h₁)
    exact (Nat.add_le_add_right ho.le _).trans hsol.funded

/-- The withdrawn tokens leave. -/
theorem Solvent.unstake {n : ℕ} (h : Solvent w) (hs : sender ≠ 0)
    (hx : w.unstake sender n = .ok w') : Solvent w' := by
  obtain ⟨w₁, t, h₁, hle, hble, ht, rfl⟩ := unstake_eq_ok hx
  have hsol := h.updateReward h₁
  have hbal := Erc20.le_transfer_add ht w₁.pool.self
  refine ⟨hsol.staking_unapproved.transfer ht, hsol.reward_unapproved, ?_, ?_, hsol.updated,
    hsol.finish, hsol.paid, hsol.idle, ?_⟩
  · show ∑ a, update w₁.pool._balances sender _ a = w₁.pool._totalSupply - n
    have hsum := sum_update_of_sub w₁.pool._balances sender hble
    rw [hsol.supply] at hsum
    omega
  · have hst := hsol.staked
    show w₁.pool._totalSupply - n ≤ t.balanceOf w₁.pool.self
    omega
  · have ho := owed_reweigh (w₁.pool._balances sender - n) fun _ => updateReward_paid h₁ hs
    exact (Nat.add_le_add_right ho.le _).trans hsol.funded

/-! ## Rewards -/

theorem payReward_eq_ok {b : Bool} (h : w.payReward sender b = .ok w') :
    w' = w ∨ 0 < w.pool.rewards sender ∧ ∃ r,
      w.payOut sender (w.pool.rewards sender) b = .ok r ∧
      w' = { w with
        rewardToken := r.1
        pool := { w.pool with
          rewards := update w.pool.rewards sender 0
          pendingPenalty := r.2 } } := by
  unfold World.payReward at h
  dsimp only at h
  split_ifs at h with hp
  · obtain ⟨r, hr, h⟩ := bind_eq_ok.1 h
    exact .inr ⟨hp, r, hr, (Except.ok.inj h).symm⟩
  · exact .inl (Except.ok.inj h).symm

/-- A reward is taken from what is owed, and its penalty stays. -/
theorem Solvent.payReward {b : Bool} (h : Solvent w) (hs : sender ≠ 0)
    (hx : w.payReward sender b = .ok w') : Solvent w' := by
  rcases payReward_eq_ok hx with rfl | ⟨hp, r, hr, rfl⟩
  · exact h
  · obtain ⟨penalty, hle, hpen, hall, hbal⟩ := payOut_eq_ok h.reward_unapproved hr
    refine ⟨h.staking_unapproved, hall, h.supply, h.staked, h.updated, h.finish, h.paid,
      fun hr0 => ?_, ?_⟩
    · have := (h.idle hr0).2.1 sender
      omega
    · have hpay : ((acc w.pool).pay sender).owed scale stakers + w.pool.rewards sender * scale =
          (acc w.pool).owed scale stakers := Accumulator.owed_pay scale (mem_stakers.2 hs)
      have hf := h.funded
      have hb := Nat.mul_le_mul_right scale hbal
      have hsub : (w.pool.rewards sender - penalty) * scale + penalty * scale =
          w.pool.rewards sender * scale := by
        rw [← Nat.add_mul, Nat.sub_add_cancel hle]
      show ((acc w.pool).pay sender).owed scale stakers + (r.2 +
        w.pool.rewardRate * (w.pool.periodFinish - w.pool.lastUpdateTime)) * scale ≤
          r.1.balanceOf w.pool.self * scale
      rw [hpen]
      simp only [Nat.add_mul] at hf hb ⊢
      omega

theorem Solvent.getReward {b : Bool} (h : Solvent w) (hs : sender ≠ 0)
    (hx : w.getReward sender b = .ok w') : Solvent w' := by
  obtain ⟨w₁, h₁, hx⟩ := bind_eq_ok.1 hx
  exact (h.updateReward h₁).payReward hs hx

theorem Solvent.withdraw {n : ℕ} {claim lock : Bool} (h : Solvent w) (hs : sender ≠ 0)
    (hx : w.withdraw sender n claim lock = .ok w') : Solvent w' := by
  obtain ⟨w₁, h₁, hx⟩ := bind_eq_ok.1 hx
  have hsol := h.unstake hs h₁
  split_ifs at hx with hc
  · exact hsol.getReward hs hx
  · cases hx
    exact hsol

/-! ## Penalty, rescue and initialisation -/

theorem Solvent.forwardPenalty (h : Solvent w) (hx : w.forwardPenalty = .ok w') : Solvent w' := by
  obtain ⟨t, ht, hx⟩ := bind_eq_ok.1 hx
  cases hx
  have hbal := Nat.mul_le_mul_right scale (Erc20.le_transfer_add ht w.pool.self)
  refine ⟨h.staking_unapproved, h.reward_unapproved.transfer ht, h.supply, h.staked, h.updated,
    h.finish, h.paid, fun hr => ?_, ?_⟩
  · obtain ⟨hs, hc, -⟩ := h.idle hr
    exact ⟨hs, hc, rfl⟩
  · have hf := h.funded
    show (acc w.pool).owed scale stakers + (0 +
      w.pool.rewardRate * (w.pool.periodFinish - w.pool.lastUpdateTime)) * scale ≤
        t.balanceOf w.pool.self * scale
    simp only [Nat.add_mul, Nat.zero_mul] at hf hbal ⊢
    omega

/-- Without a rate nothing is owed. -/
theorem Solvent.owed_of_idle (h : Solvent w) (hr : w.pool.rewardRate = 0) :
    (acc w.pool).owed scale stakers = 0 :=
  Accumulator.owed_eq_zero scale (h.idle hr).1 fun a _ => (h.idle hr).2.1 a

theorem Solvent.rescueReward (h : Solvent w) (hx : w.rescueReward sender = .ok w') :
    Solvent w' := by
  obtain ⟨-, hx⟩ := require_bind_eq_ok.1 hx
  obtain ⟨⟨-, hr⟩, hx⟩ := require_bind_eq_ok.1 hx
  obtain ⟨t, ht, hx⟩ := bind_eq_ok.1 hx
  cases hx
  refine ⟨h.staking_unapproved, h.reward_unapproved.transfer ht, h.supply, h.staked, h.updated,
    h.finish, h.paid, h.idle, ?_⟩
  show (acc w.pool).owed scale stakers + (w.pool.pendingPenalty +
    w.pool.rewardRate * (w.pool.periodFinish - w.pool.lastUpdateTime)) * scale ≤ _
  rw [h.owed_of_idle hr, (h.idle hr).2.2, hr, Nat.zero_mul, Nat.zero_mul]
  exact Nat.zero_le _

theorem initialiseRewards_eq_ok (h : w.initialiseRewards sender = .ok w') :
    w.pool.rewardRate = 0 ∧ w' = { w with pool := { w.pool with
      rewardRate := w.rewardToken.balanceOf w.pool.self / duration
      lastUpdateTime := w.now
      periodFinish := w.now + duration } } := by
  obtain ⟨-, h⟩ := require_bind_eq_ok.1 h
  obtain ⟨hr, h⟩ := require_bind_eq_ok.1 h
  obtain ⟨-, h⟩ := require_bind_eq_ok.1 h
  obtain ⟨rate, hrate, h⟩ := bind_eq_ok.1 h
  obtain ⟨pf, hpf, h⟩ := bind_eq_ok.1 h
  obtain ⟨-, rfl⟩ := udiv_eq_ok.1 hrate
  obtain ⟨-, rfl⟩ := uadd_eq_ok.1 hpf
  exact ⟨hr, (Except.ok.inj h).symm⟩

/-- The whole balance is streamed : nothing is owed before. -/
theorem Solvent.initialiseRewards (h : Solvent w) (hx : w.initialiseRewards sender = .ok w') :
    Solvent w' := by
  obtain ⟨hr, rfl⟩ := initialiseRewards_eq_ok hx
  refine ⟨h.staking_unapproved, h.reward_unapproved, h.supply, h.staked, le_rfl,
    Nat.le_add_right _ _, h.paid, fun _ => h.idle hr, ?_⟩
  show (acc w.pool).owed scale stakers + (w.pool.pendingPenalty +
    w.rewardToken.balanceOf w.pool.self / duration * (w.now + duration - w.now)) * scale ≤ _
  rw [h.owed_of_idle hr, (h.idle hr).2.2, Nat.add_sub_cancel_left, Nat.zero_add, Nat.zero_add]
  exact Nat.mul_le_mul_right scale (Nat.div_mul_le_self _ _)

/-! ## Runs -/

theorem Deployed.pool_eq (h : Deployed w) : ∃ m l f t, AuraBalRewardPool.mk w.pool.self m l f 0 t
    0 0 0 0 0 (fun _ => 0) (fun _ => 0) (fun _ => 0) = w.pool := by
  obtain ⟨s, r, m, l, f, d, hd⟩ := h.deploy
  obtain ⟨-, hd⟩ := require_bind_eq_ok.1 hd
  obtain ⟨-, hd⟩ := require_bind_eq_ok.1 hd
  obtain ⟨-, hd⟩ := require_bind_eq_ok.1 hd
  obtain ⟨-, hd⟩ := require_bind_eq_ok.1 hd
  obtain ⟨-, hd⟩ := require_bind_eq_ok.1 hd
  obtain ⟨t, -, hd⟩ := bind_eq_ok.1 hd
  exact ⟨m, l, f, t, Except.ok.inj hd⟩

theorem Solvent.deployed (h : Deployed w) : Solvent w := by
  obtain ⟨m, l, f, t, he⟩ := h.pool_eq
  have hrate : w.pool.rewardRate = 0 := by rw [← he]
  have hidx : w.pool.rewardPerTokenStored = 0 := by rw [← he]
  have hcredit : ∀ a, w.pool.rewards a = 0 := fun a => by rw [← he]
  have hpen : w.pool.pendingPenalty = 0 := by rw [← he]
  have hlut : w.pool.lastUpdateTime = 0 := by rw [← he]
  have hsup : w.pool._totalSupply = 0 := by rw [← he]
  refine ⟨h.staking_unapproved, h.reward_unapproved, ?_, ?_, ?_, ?_, fun a => ?_,
    fun _ => ⟨hidx, hcredit, hpen⟩, ?_⟩
  · rw [hsup]
    exact sum_eq_zero fun a _ => by rw [← he]
  · rw [hsup]
    exact Nat.zero_le _
  · rw [hlut]
    exact Nat.zero_le _
  · rw [hlut]
    exact Nat.zero_le _
  · rw [← he]
  · rw [Accumulator.owed_eq_zero scale hidx fun a _ => hcredit a, hpen, hrate, Nat.zero_mul,
      Nat.zero_mul]
    exact Nat.zero_le _

theorem Solvent.elsewhere (h : Solvent w) (he : Elsewhere w w') : Solvent w' := by
  have hself : w'.pool.self = w.pool.self := by rw [he.pool]
  constructor
  · rw [hself]
    exact he.stakingToken.unapproved h.staking_unapproved
  · rw [hself]
    exact he.rewardToken.unapproved h.reward_unapproved
  · rw [he.pool]
    exact h.supply
  · rw [he.pool]
    exact h.staked.trans (he.stakingToken.balanceOf h.staking_unapproved)
  · rw [he.pool]
    exact h.updated.trans he.now
  · rw [he.pool]
    exact h.finish
  · rw [he.pool]
    exact h.paid
  · rw [he.pool]
    exact h.idle
  · rw [he.pool]
    exact h.funded.trans (Nat.mul_le_mul_right scale
      (he.rewardToken.balanceOf h.reward_unapproved))

theorem Solvent.step {c : Call} (h : Solvent w) (hs : IsCaller w sender)
    (hx : exec w sender c = .ok w') : Solvent w' := by
  cases c with
  | stake n => exact h.stakeFor hs.2 hx
  | stakeAll => exact h.stakeFor hs.2 hx
  | stakeFor a n => exact h.stakeFor hs.2 hx
  | withdraw n claim lock => exact h.withdraw hs.1 hx
  | getReward b => exact h.getReward hs.1 hx
  | forwardPenalty => exact h.forwardPenalty hx
  | rescueReward => exact h.rescueReward hx
  | setLocker a =>
    obtain ⟨-, hx⟩ := require_bind_eq_ok.1 hx
    cases hx
    exact ⟨h.staking_unapproved, h.reward_unapproved, h.supply, h.staked, h.updated, h.finish,
      h.paid, h.idle, h.funded⟩
  | initialiseRewards => exact h.initialiseRewards hx

/-- Every reachable pool is solvent. -/
theorem Solvent.of_reachable {log : List (Event Address Call)} (h : system.Reachable log w) :
    Solvent w :=
  h.induct (P := fun _ w => Solvent w) (fun _ => Solvent.deployed)
    (fun _ _ _ => Solvent.elsewhere) fun _ _ _ _ _ h hs hx => h.step hs hx

end Aura.RewardPool
