import Aura.RewardPool.Stream

/-!
# RewardPool : solvency

The pool covers what all accounts but the zero account have earned, the pending penalty and
what is still to be streamed. With supplies below `2^112` it also never reverts because of
its own arithmetic, if nobody stakes or withdraws more than they have.

The zero account is never settled, so a stake for it counts for everything that was streamed
before (`zero_overdrawn`).
-/

open Evm Function Finset

namespace Aura.RewardPool

variable {w w' : World} {sender account : Address} {c : Call} {log : List (Event Address Call)}

/-! ## Supplies below `2^112` -/

/-- The supplies of both tokens are below `2^112`. -/
def Small (w : World) : Prop :=
  w.stakingToken.totalSupply < 2 ^ 112 ∧ w.rewardToken.totalSupply < 2 ^ 112

/-- The pool in surroundings that keep the supplies small. -/
def boundedSystem : System World Address Call :=
  { system with
    Elsewhere := fun w w' => Elsewhere w w' ∧ (Small w → Small w')
    Deployed := fun w => Deployed w ∧ Small w }

instance (w : World) (a : Address) : Decidable (boundedSystem.IsCaller w a) :=
  inferInstanceAs (Decidable (IsCaller w a))

theorem reachable_of_bounded (h : boundedSystem.Reachable log w) : system.Reachable log w := by
  obtain ⟨w₀, h₀, hs⟩ := h
  refine ⟨w₀, h₀.1, ?_⟩
  induction hs with
  | refl => exact .refl
  | elsewhere _ he ih => exact .elsewhere ih he.1
  | call _ hc hx ih => exact .call ih hc hx

/-- The reward per token is bounded by what is streamed in all. -/
structure Indexed (p : AuraBalRewardPool) : Prop where
  rate : p.rewardRate * duration < 2 ^ 112
  index : p.rewardPerTokenStored + p.rewardRate * (p.periodFinish - p.lastUpdateTime) * scale ≤
    p.rewardRate * duration * scale

/-- What the arithmetic of the pool rests on. -/
structure Bounded (w : World) : Prop extends Solvent w, Indexed w.pool where
  small : Small w

theorem growth_le (w : World) : growth w ≤
    (w.lastTimeRewardApplicable - w.pool.lastUpdateTime) * w.pool.rewardRate * scale := by
  unfold growth
  split_ifs
  · exact Nat.zero_le _
  · exact Nat.div_le_self _ _

/-- The reward per token after the growth is still bounded. -/
theorem Bounded.index_advance (h : Bounded w) : w.pool.rewardPerTokenStored + growth w +
    w.pool.rewardRate * (w.pool.periodFinish - w.lastTimeRewardApplicable) * scale ≤
      w.pool.rewardRate * duration * scale := by
  have hi := h.index
  have hg := growth_le w
  rw [h.stream_split] at hi
  simp only [Nat.add_mul] at hi
  omega

theorem Indexed.updateReward (h : Bounded w) (hx : w.updateReward account = .ok w') :
    Indexed w'.pool := by
  obtain rfl := updateReward_eq_ok hx
  refine ⟨h.rate, ?_⟩
  show (settled w account).index +
    w.pool.rewardRate * (w.pool.periodFinish - w.lastTimeRewardApplicable) * scale ≤ _
  rw [settled_index]
  exact h.index_advance

theorem Bounded.updateReward (h : Bounded w) (hx : w.updateReward account = .ok w') :
    Bounded w' := by
  refine ⟨h.toSolvent.updateReward hx, Indexed.updateReward h hx, ?_⟩
  obtain rfl := updateReward_eq_ok hx
  exact h.small

theorem payOut_supply {n : ℕ} {b : Bool} {r : Erc20 Address × ℕ}
    (h : w.payOut sender n b = .ok r) : r.1.totalSupply = w.rewardToken.totalSupply := by
  unfold World.payOut at h
  cases b with
  | true =>
    rw [if_pos rfl] at h
    obtain ⟨t₁, h₁, h⟩ := bind_eq_ok.1 h
    obtain ⟨t₂, h₂, h⟩ := bind_eq_ok.1 h
    cases h
    obtain ⟨x, -, h₁⟩ := bind_eq_ok.1 h₁
    exact ((Erc20.transferFrom_eq_ok (lockerPull_eq_ok h₂).2).2.2.2).trans
      (Erc20.approve_eq_ok h₁).2
  | false =>
    rw [if_neg Bool.false_ne_true] at h
    obtain ⟨x, -, h⟩ := bind_eq_ok.1 h
    obtain ⟨q, -, h⟩ := bind_eq_ok.1 h
    obtain ⟨y, -, h⟩ := bind_eq_ok.1 h
    obtain ⟨t, ht, h⟩ := bind_eq_ok.1 h
    cases h
    exact (Erc20.transfer_eq_ok ht).2.2.2.2.2

theorem Bounded.payReward {b : Bool} (h : Bounded w) (hs : sender ≠ 0)
    (hx : w.payReward sender b = .ok w') : Bounded w' := by
  refine ⟨h.toSolvent.payReward hs hx, ?_, ?_⟩
  · rcases payReward_eq_ok hx with rfl | ⟨-, r, -, rfl⟩
    · exact h.toIndexed
    · exact ⟨h.rate, h.index⟩
  · rcases payReward_eq_ok hx with rfl | ⟨-, r, hr, rfl⟩
    · exact h.small
    · exact ⟨h.small.1, (payOut_supply hr).trans_lt h.small.2⟩

theorem Bounded.getReward {b : Bool} (h : Bounded w) (hs : sender ≠ 0)
    (hx : w.getReward sender b = .ok w') : Bounded w' := by
  obtain ⟨w₁, h₁, hx⟩ := bind_eq_ok.1 hx
  exact (h.updateReward h₁).payReward hs hx

theorem Bounded.unstake {n : ℕ} (h : Bounded w) (hs : sender ≠ 0)
    (hx : w.unstake sender n = .ok w') : Bounded w' := by
  have hsol := h.toSolvent.unstake hs hx
  obtain ⟨w₁, t, h₁, -, -, ht, rfl⟩ := unstake_eq_ok hx
  have hb := h.updateReward h₁
  exact ⟨hsol, ⟨hb.rate, hb.index⟩,
    (Erc20.transfer_eq_ok ht).2.2.2.2.2.trans_lt hb.small.1, hb.small.2⟩

theorem Bounded.stakeFor {n : ℕ} (h : Bounded w) (hs : sender ≠ w.pool.self)
    (hx : w.stakeFor sender account n = .ok w') : Bounded w' := by
  have hsol := h.toSolvent.stakeFor hs hx
  obtain ⟨w₁, t, h₁, ht, rfl⟩ := stakeFor_eq_ok hx
  have hb := h.updateReward h₁
  exact ⟨hsol, ⟨hb.rate, hb.index⟩,
    (Erc20.transferFrom_eq_ok ht).2.2.2.trans_lt hb.small.1, hb.small.2⟩

theorem Bounded.initialiseRewards (h : Bounded w) (hx : w.initialiseRewards sender = .ok w') :
    Bounded w' := by
  have hsol := h.toSolvent.initialiseRewards hx
  obtain ⟨hr, rfl⟩ := initialiseRewards_eq_ok hx
  have hle : w.rewardToken.balanceOf w.pool.self / duration * duration < 2 ^ 112 :=
    ((Nat.div_mul_le_self _ _).trans (w.rewardToken.balanceOf_le _)).trans_lt h.small.2
  refine ⟨hsol, ⟨hle, ?_⟩, h.small⟩
  show w.pool.rewardPerTokenStored + w.rewardToken.balanceOf w.pool.self / duration *
    (w.now + duration - w.now) * scale ≤ _
  rw [(h.idle hr).1, Nat.add_sub_cancel_left, Nat.zero_add]

theorem Bounded.step (h : Bounded w) (hs : IsCaller w sender) (hx : exec w sender c = .ok w') :
    Bounded w' := by
  have hsol := h.toSolvent.step hs hx
  cases c with
  | stake n => exact h.stakeFor hs.2 hx
  | stakeAll => exact h.stakeFor hs.2 hx
  | stakeFor a n => exact h.stakeFor hs.2 hx
  | withdraw n claim lock =>
    obtain ⟨w₁, h₁, hx⟩ := bind_eq_ok.1 hx
    have hb := h.unstake hs.1 h₁
    split_ifs at hx with hc
    · exact hb.getReward hs.1 hx
    · cases hx
      exact hb
  | getReward b => exact h.getReward hs.1 hx
  | forwardPenalty =>
    obtain ⟨t, ht, hx⟩ := bind_eq_ok.1 hx
    cases hx
    exact ⟨hsol, ⟨h.rate, h.index⟩, h.small.1,
      (Erc20.transfer_eq_ok ht).2.2.2.2.2.trans_lt h.small.2⟩
  | rescueReward =>
    obtain ⟨-, hx⟩ := require_bind_eq_ok.1 hx
    obtain ⟨-, hx⟩ := require_bind_eq_ok.1 hx
    obtain ⟨t, ht, hx⟩ := bind_eq_ok.1 hx
    cases hx
    exact ⟨hsol, ⟨h.rate, h.index⟩, h.small.1,
      (Erc20.transfer_eq_ok ht).2.2.2.2.2.trans_lt h.small.2⟩
  | setLocker a =>
    obtain ⟨-, hx⟩ := require_bind_eq_ok.1 hx
    cases hx
    exact ⟨hsol, ⟨h.rate, h.index⟩, h.small⟩
  | initialiseRewards => exact h.initialiseRewards hx

theorem Bounded.of_reachable (h : boundedSystem.Reachable log w) : Bounded w := by
  refine h.induct (P := fun _ w => Bounded w) (fun w hd => ?_) (fun _ w w' h he => ?_)
    fun _ _ _ _ _ h hs hx => h.step hs hx
  · have hsol := Solvent.deployed hd.1
    obtain ⟨m, l, f, t, hp⟩ := hd.1.pool_eq
    have hrate : w.pool.rewardRate = 0 := by rw [← hp]
    have hidx : w.pool.rewardPerTokenStored = 0 := by rw [← hp]
    refine ⟨hsol, ⟨?_, ?_⟩, hd.2⟩
    · rw [hrate, Nat.zero_mul]
      positivity
    · simp [hrate, hidx]
  · refine ⟨h.toSolvent.elsewhere he.1, ?_, he.2 h.small⟩
    rw [he.1.pool]
    exact h.toIndexed

/-! ## The arithmetic -/

theorem Bounded.owed_lt (h : Bounded w) :
    ((acc w.pool).advance (growth w)).owed scale stakers < 2 ^ 112 * scale := by
  have hf := h.toSolvent.funded_advance
  have hle := w.rewardToken.balanceOf_le w.pool.self
  have hlt := Nat.mul_lt_mul_of_pos_right (hle.trans_lt h.small.2) (show 0 < scale by decide)
  omega

/-- What a staker has earned is at most what the pool holds. -/
theorem Bounded.earned_lt (h : Bounded w) (ha : account ≠ 0) :
    ((acc w.pool).advance (growth w)).earned scale account < 2 ^ 112 := by
  have hle := Accumulator.earned_le (a := (acc w.pool).advance (growth w)) scale
    (mem_stakers.2 ha)
  exact Nat.lt_of_mul_lt_mul_right (hle.trans_lt h.owed_lt)

theorem Bounded.rewardPerToken (h : Bounded w) :
    w.rewardPerToken = .ok (w.pool.rewardPerTokenStored + growth w) := by
  have hidx := h.index_advance
  have hrate : w.pool.rewardRate * duration * scale < 2 ^ 112 * scale :=
    Nat.mul_lt_mul_of_pos_right h.rate (by decide)
  have hscale : 2 ^ 112 * scale < 2 ^ 256 := by decide
  unfold World.rewardPerToken
  dsimp only
  split_ifs with hs
  · have hg : growth w = 0 := if_pos hs
    rw [hg, Nat.add_zero]
  · -- the rate for the time since the update is part of what is streamed in all
    have hx : (w.lastTimeRewardApplicable - w.pool.lastUpdateTime) * w.pool.rewardRate * scale ≤
        w.pool.rewardRate * duration * scale := by
      have hi := h.index
      rw [h.stream_split] at hi
      simp only [Nat.add_mul] at hi
      omega
    have hx' : (w.lastTimeRewardApplicable - w.pool.lastUpdateTime) * w.pool.rewardRate <
        2 ^ 256 := by
      have := Nat.le_of_mul_le_mul_right hx (by decide)
      have := h.rate
      omega
    have hg : growth w = (w.lastTimeRewardApplicable - w.pool.lastUpdateTime) *
        w.pool.rewardRate * scale / w.pool._totalSupply := if_neg hs
    rw [usub_of h.le_lastTime, ok_bind, umul_of hx', ok_bind,
      umul_of (show _ * 10 ^ 18 < _ from hx.trans_lt (hrate.trans hscale)), ok_bind, udiv_of hs,
      ok_bind]
    show uadd 256 _ (_ * scale / _) = _
    rw [← hg, uadd_of]
    omega

/-- For every account but zero, `earned` returns what the accumulator says. -/
theorem Bounded.earned (h : Bounded w) (ha : account ≠ 0) :
    w.earned account = .ok (((acc w.pool).advance (growth w)).earned scale account) := by
  have hpaid : w.pool.userRewardPerTokenPaid account ≤ w.pool.rewardPerTokenStored + growth w :=
    (h.paid account).trans (Nat.le_add_right _ _)
  have hearned := h.earned_lt ha
  have hscale : 2 ^ 112 * scale < 2 ^ 256 := by decide
  -- a claim, times the scale, is at least what it was rounded down from, less the scale
  have hmul : w.pool._balances account * (w.pool.rewardPerTokenStored + growth w -
      w.pool.userRewardPerTokenPaid account) < 2 ^ 256 := by
    have hlt : ((acc w.pool).advance (growth w)).pending account / scale < 2 ^ 112 :=
      (Nat.le_add_right _ _).trans_lt hearned
    exact ((Nat.div_lt_iff_lt_mul (by decide)).1 hlt).trans hscale
  unfold World.earned
  rw [h.rewardPerToken, ok_bind, usub_of hpaid, ok_bind, umul_of hmul, ok_bind,
    udiv_of (by norm_num), ok_bind]
  exact uadd_of (hearned.trans (by norm_num))

theorem Bounded.exists_updateReward (h : Bounded w) (account : Address) :
    ∃ w', w.updateReward account = .ok w' := by
  unfold World.updateReward
  rw [h.rewardPerToken, ok_bind]
  dsimp only
  unfold World.settle
  split_ifs with ha
  · have hb : Bounded (w.withRewards ((acc w.pool).advance (growth w))) := by
      have h0 : w.updateReward 0 = .ok (w.withRewards (settled w 0)) := by
        unfold World.updateReward
        rw [h.rewardPerToken, ok_bind]
        rfl
      exact h.updateReward h0
    exact ⟨_, bind_eq_ok.2 ⟨_, hb.earned ha, rfl⟩⟩
  · exact ⟨_, rfl⟩

/-- An operation after `updateReward`. -/
theorem Bounded.noPanic_update {f : World → Tx World} (h : Bounded w) (account : Address)
    (hf : ∀ w₁, Bounded w₁ → w₁ = w.withRewards (settled w account) → NoPanic (f w₁)) :
    NoPanic (w.updateReward account >>= f) := by
  obtain ⟨w₁, h₁⟩ := h.exists_updateReward account
  rw [h₁, ok_bind]
  exact hf w₁ (h.updateReward h₁) (updateReward_eq_ok h₁)

/-- The stakes of an account are at most the supply. -/
theorem Bounded.balances_le (h : Bounded w) (a : Address) :
    w.pool._balances a ≤ w.pool._totalSupply := by
  rw [← h.supply]
  exact le_sum _ a

theorem Bounded.totalSupply_lt (h : Bounded w) : w.pool._totalSupply < 2 ^ 112 :=
  (h.staked.trans (w.stakingToken.balanceOf_le _)).trans_lt h.small.1

theorem Bounded.noPanic_stakeFor {n : ℕ} (h : Bounded w)
    (hn : n ≤ w.stakingToken.balanceOf sender) :
    NoPanic (w.stakeFor sender account n) := by
  refine h.noPanic_update account fun w₁ h₁ hw => ?_
  have hn' : n < 2 ^ 112 := (hn.trans (w.stakingToken.balanceOf_le _)).trans_lt h.small.1
  have hsup := h₁.totalSupply_lt
  have hbal := h₁.balances_le account
  refine (noPanic_require _).bind fun _ _ => ?_
  dsimp only
  rw [uadd_of (by omega), ok_bind, uadd_of (by omega), ok_bind]
  exact (Erc20.noPanic_transferFrom _ _ _ _ _).bind fun _ _ => noPanic_ok _

theorem Bounded.noPanic_unstake {n : ℕ} (h : Bounded w) (hn : n ≤ w.pool._balances sender) :
    NoPanic (w.unstake sender n) := by
  refine h.noPanic_update sender fun w₁ h₁ hw => ?_
  have hn' : n ≤ w₁.pool._balances sender := by
    rw [hw]
    exact hn
  have hbal := h₁.balances_le sender
  refine (noPanic_require _).bind fun _ _ => ?_
  dsimp only
  rw [usub_of (hn'.trans hbal), ok_bind, usub_of hn', ok_bind]
  exact (Erc20.noPanic_transfer _ _ _ _).bind fun _ _ => noPanic_ok _

/-- A credit and the pending penalty are at most what the pool holds. -/
theorem Bounded.rewards_lt (h : Bounded w) (ha : account ≠ 0) :
    w.pool.rewards account < 2 ^ 112 ∧ w.pool.pendingPenalty < 2 ^ 112 := by
  constructor
  · exact (Nat.le_add_left _ _).trans_lt (h.earned_lt ha)
  · have hf := h.funded
    have hle := w.rewardToken.balanceOf_le w.pool.self
    have hpen : w.pool.pendingPenalty * scale ≤ w.rewardToken.balanceOf w.pool.self * scale := by
      simp only [Nat.add_mul] at hf
      omega
    exact ((Nat.le_of_mul_le_mul_right hpen (by decide)).trans hle).trans_lt h.small.2

theorem Bounded.noPanic_payOut {n : ℕ} {b : Bool} (h : Bounded w) (hn : n < 2 ^ 112)
    (hp : w.pool.pendingPenalty < 2 ^ 112) : NoPanic (w.payOut sender n b) := by
  unfold World.payOut
  cases b with
  | true =>
    rw [if_pos rfl, h.reward_unapproved.safeIncreaseAllowance _ (by omega)]
    refine (Erc20.noPanic_approve _ _ _ _).bind fun _ _ => ?_
    exact (noPanic_lockerPull _ _ _ _ _ _).bind fun _ _ => noPanic_ok _
  | false =>
    rw [if_neg Bool.false_ne_true, umul_of (by omega), ok_bind]
    dsimp only
    rw [uadd_of (by omega), ok_bind, usub_of (by omega), ok_bind]
    exact (Erc20.noPanic_transfer _ _ _ _).bind fun _ _ => noPanic_ok _

theorem Bounded.noPanic_getReward {b : Bool} (h : Bounded w) (hs : sender ≠ 0) :
    NoPanic (w.getReward sender b) := by
  refine h.noPanic_update sender fun w₁ h₁ _ => ?_
  obtain ⟨hr, hp⟩ := h₁.rewards_lt hs
  unfold World.payReward
  dsimp only
  split_ifs
  · exact (h₁.noPanic_payOut hr hp).bind fun _ _ => noPanic_ok _
  · exact noPanic_ok _

/-- The amounts and the time of a call are in range : nobody stakes or withdraws more than
they have. -/
def InRange (w : World) (sender : Address) : Call → Prop
  | .stake n | .stakeFor _ n => n ≤ w.stakingToken.balanceOf sender
  | .withdraw n _ _ => n ≤ w.pool._balances sender
  | .initialiseRewards => w.now + duration < 2 ^ 256
  | _ => True

theorem Bounded.noPanic_exec (h : Bounded w) (hs : IsCaller w sender) (hc : InRange w sender c) :
    NoPanic (exec w sender c) := by
  cases c with
  | stake n => exact h.noPanic_stakeFor hc
  | stakeAll => exact h.noPanic_stakeFor le_rfl
  | stakeFor a n => exact h.noPanic_stakeFor hc
  | withdraw n claim lock =>
    refine (h.noPanic_unstake hc).bind fun w₁ h₁ => ?_
    split_ifs
    · exact (h.unstake hs.1 h₁).noPanic_getReward hs.1
    · exact noPanic_ok _
  | getReward b => exact h.noPanic_getReward hs.1
  | forwardPenalty => exact (Erc20.noPanic_transfer _ _ _ _).bind fun _ _ => noPanic_ok _
  | rescueReward =>
    refine (noPanic_require _).bind fun _ _ => (noPanic_require _).bind fun _ _ => ?_
    exact (Erc20.noPanic_transfer _ _ _ _).bind fun _ _ => noPanic_ok _
  | setLocker a => exact (noPanic_require _).bind fun _ _ => noPanic_ok _
  | initialiseRewards =>
    refine (noPanic_require _).bind fun _ _ => (noPanic_require _).bind fun _ _ => ?_
    refine (noPanic_require _).bind fun _ _ => ?_
    rw [udiv_of (by decide), ok_bind, uadd_of hc, ok_bind]
    exact noPanic_ok _

/-! ## The main result -/

/-- What the stakers have earned, the pending penalty and the rest of the stream. -/
theorem Solvent.covers (h : Solvent w) {earned : Address → ℕ}
    (he : ∀ a, a ≠ 0 → w.earned a = .ok (earned a)) :
    ∑ a ∈ univ.erase 0, earned a + w.pool.pendingPenalty +
        w.pool.rewardRate * (w.pool.periodFinish - max w.now w.pool.lastUpdateTime) ≤
      w.rewardToken.balanceOf w.pool.self := by
  have hsum : ∑ a ∈ stakers, earned a =
      ∑ a ∈ stakers, ((acc w.pool).advance (growth w)).earned scale a :=
    sum_congr rfl fun a ha => earned_eq_ok (he a (mem_stakers.1 ha))
  have hle : (∑ a ∈ stakers, ((acc w.pool).advance (growth w)).earned scale a) * scale ≤
      ((acc w.pool).advance (growth w)).owed scale stakers :=
    Accumulator.sum_earned_le scale
  have hf := h.funded_advance
  have hrest : w.pool.periodFinish - max w.now w.pool.lastUpdateTime =
      w.pool.periodFinish - w.lastTimeRewardApplicable := by
    have hu := h.updated
    have hmin : w.lastTimeRewardApplicable = min w.now w.pool.periodFinish :=
      lastTimeRewardApplicable_eq w
    omega
  rw [hrest]
  show ∑ a ∈ stakers, earned a + _ + _ ≤ _
  rw [hsum]
  refine Nat.le_of_mul_le_mul_right ?_ (show 0 < scale by decide)
  simp only [Nat.add_mul] at hf ⊢
  omega

/-- In every run the rewards of all accounts but zero and the stakes are covered, and with
small supplies nothing reverts because of arithmetic. -/
theorem pool_solvent (h : system.Reachable log w) :
    (∀ earned : Address → ℕ, (∀ a, a ≠ 0 → w.earned a = .ok (earned a)) →
      ∑ a ∈ univ.erase 0, earned a + w.pool.pendingPenalty +
          w.pool.rewardRate * (w.pool.periodFinish - max w.now w.pool.lastUpdateTime) ≤
        w.rewardToken.balanceOf w.pool.self) ∧
    w.pool._totalSupply ≤ w.stakingToken.balanceOf w.pool.self ∧
    ∑ a, w.pool._balances a = w.pool._totalSupply ∧
    (boundedSystem.Reachable log w → (∀ a, a ≠ 0 → ∃ e, w.earned a = .ok e) ∧
      ∀ sender c, IsCaller w sender → InRange w sender c → NoPanic (exec w sender c)) := by
  have hsol := Solvent.of_reachable h
  refine ⟨fun _ => hsol.covers, hsol.staked, hsol.supply, fun hb => ?_⟩
  have hbnd := Bounded.of_reachable hb
  exact ⟨fun a ha => ⟨_, hbnd.earned ha⟩, fun _ _ => hbnd.noPanic_exec⟩

/-! ## Runs -/

/-- A pool at the address 300 of the manager 2, deployed at the time 1000. It holds 12096000
reward tokens, the account 1 holds 10^30 staking tokens, and all but the pool have approved
everybody. -/
def World.initial : World where
  now := 1000
  stakingToken := Erc20.single 1 (10 ^ 30) Erc20.single_supply_lt fun a _ =>
    if a = 300 then 0 else 2 ^ 256 - 1
  rewardToken := Erc20.single 300 12096000 (by decide) fun a _ => if a = 300 then 0 else 2 ^ 256 - 1
  accepts _ _ n := decide (0 < n)
  pool := ⟨300, 2, 200, 9, 0, 501000, 0, 0, 0, 0, 0, fun _ => 0, fun _ => 0, fun _ => 0⟩

theorem World.initial_deployed : Deployed World.initial where
  self_ne := show (300 : Address) ≠ 0 by decide
  deploy := by
    refine ⟨100, 101, 2, 200, 9, 500000, ?_⟩
    have h₁ : (100 : Address) ≠ 101 ∧ (100 : Address) ≠ 0 := by decide
    have h₂ : (2 : Address) ≠ 0 := by decide
    have h₃ : (200 : Address) ≠ 0 := by decide
    have h₄ : (9 : Address) ≠ 0 := by decide
    unfold RewardPool.deploy World.initial
    rw [require_of h₁, ok_bind, require_of h₂, ok_bind, require_of h₃, ok_bind, require_of h₄,
      ok_bind, require_of (by norm_num), ok_bind, uadd_of (by norm_num), ok_bind]
  staking_unapproved _ := rfl
  reward_unapproved _ := rfl

theorem World.initial_small : Small World.initial :=
  ⟨show 10 ^ 30 < 2 ^ 112 by norm_num, show 12096000 < 2 ^ 112 by norm_num⟩

/-- The world at a later time. -/
def World.at (w : World) (now : ℕ) : World :=
  { w with now }

theorem World.elsewhere_at (w : World) (now : ℕ) (h : w.now ≤ now) : Elsewhere w (w.at now) :=
  ⟨h, Erc20.Others.refl _ _, Erc20.Others.refl _ _, rfl⟩

theorem World.bounded_at (w : World) (now : ℕ) (h : w.now ≤ now) :
    boundedSystem.Elsewhere w (w.at now) :=
  ⟨w.elsewhere_at now h, id⟩

/-- A run that was computed keeps the supplies small. -/
theorem bounded_play (h : boundedSystem.play World.at World.initial log = .ok w) :
    boundedSystem.Reachable log w :=
  ⟨_, ⟨World.initial_deployed, World.initial_small⟩,
    .play World.bounded_at h⟩

/-- The account 1 stakes, the rewards are streamed, and it is paid half of them. -/
def World.someCalls : List (Event Address Call) :=
  [⟨2000, 1, .stake 5⟩, ⟨3000, 2, .initialiseRewards⟩, ⟨607800, 1, .getReward false⟩]

theorem pool_solvent_run : ∃ w, system.Reachable World.someCalls w ∧
    w.pool._totalSupply ≤ w.stakingToken.balanceOf w.pool.self ∧
    NoPanic (exec w 1 (.getReward true)) := by
  obtain ⟨w, hw⟩ := Tx.exists_ok (show (boundedSystem.play World.at World.initial
    World.someCalls).returns = true by decide +kernel)
  have hself : (boundedSystem.play World.at World.initial World.someCalls).map
      (fun w => w.pool.self) = .ok 300 := by decide +kernel
  rw [hw] at hself
  have hb := bounded_play hw
  obtain ⟨-, hstaked, -, hpanic⟩ := pool_solvent (reachable_of_bounded hb)
  have hcaller : IsCaller w 1 := by
    refine ⟨by decide, ?_⟩
    have hself' : w.pool.self = 300 := Except.ok.inj hself
    rw [hself']
    decide
  exact ⟨w, reachable_of_bounded hb, hstaked, (hpanic hb).2 1 _ hcaller trivial⟩

/-- The balance does not cover all accounts : a stake for the zero account counts for all that
was streamed before it. And a stake of more than the supply reverts for its arithmetic. -/
theorem zero_overdrawn :
    (¬∀ {log : List (Event Address Call)} {w : World}, system.Reachable log w →
      ∀ earned : Address → ℕ, (∀ a, w.earned a = .ok (earned a)) →
        ∑ a, earned a + w.pool.pendingPenalty +
            w.pool.rewardRate * (w.pool.periodFinish - max w.now w.pool.lastUpdateTime) ≤
          w.rewardToken.balanceOf w.pool.self) ∧
    ∃ log w, boundedSystem.Reachable log w ∧ IsCaller w 1 ∧
      ¬NoPanic (exec w 1 (.stake (2 ^ 256 - 1))) := by
  let log : List (Event Address Call) := [⟨2000, 1, .stake 5⟩, ⟨3000, 2, .initialiseRewards⟩,
    ⟨1212600, 1, .stakeFor 0 10⟩]
  obtain ⟨w, hw⟩ := Tx.exists_ok (show (boundedSystem.play World.at World.initial
    log).returns = true by decide +kernel)
  have hvalues : (boundedSystem.play World.at World.initial log).map (fun w => (w.earned 0,
      w.rewardToken.balanceOf w.pool.self, w.pool.self,
      (exec w 1 (.stake (2 ^ 256 - 1))).map fun _ => ())) =
        .ok (.ok 24192000, 12096000, 300, .error .overflow) := by decide +kernel
  rw [hw] at hvalues
  obtain ⟨he, hvalues⟩ := Prod.mk.inj (Except.ok.inj hvalues)
  obtain ⟨hbal, hvalues⟩ := Prod.mk.inj hvalues
  obtain ⟨hself, hstake⟩ := Prod.mk.inj hvalues
  have hreach := bounded_play hw
  refine ⟨fun h => ?_, log, w, hreach, ⟨by decide, ?_⟩, fun hpanic => ?_⟩
  · have hall : ∀ a, ∃ x, w.earned a = .ok x := by
      intro a
      by_cases ha : a = 0
      · rw [ha]
        exact ⟨_, he⟩
      · exact ⟨_, (Bounded.of_reachable hreach).earned ha⟩
    choose earned hearned using hall
    have hle := h (reachable_of_bounded hreach) earned hearned
    have h0 : earned 0 = 24192000 := Except.ok.inj ((hearned 0).symm.trans he)
    have hsum := le_sum earned 0
    rw [hbal] at hle
    omega
  · rw [hself]
    decide
  · cases hx : exec w 1 (.stake (2 ^ 256 - 1)) with
    | ok w' =>
      rw [hx] at hstake
      exact nomatch hstake
    | error e =>
      rw [hx] at hstake
      have hov : e = .overflow := Except.error.inj hstake
      exact hpanic e hx (hov ▸ trivial)

end Aura.RewardPool
