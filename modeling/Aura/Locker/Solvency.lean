import Aura.Locker.Rewards

/-!
# AuraLocker : solvency

In every reachable world the locker holds, of every reward token, what all accounts but the
zero account have earned, what is queued and what is still to be streamed
(`rewards_solvent`). The zero account is an exception : anybody can lock for it, and as
`updateReward` skips it, a lock counts for all that was streamed before (`earned_zero`).
-/

open Evm Function Finset

namespace Aura.Locker

open AuraMath

variable {w w' : World} {sender : Address}

/-- Only registered tokens are updated and have distributors. -/
structure Registered (r : Rewards) : Prop where
  updated : ∀ token, token ∉ r.rewardTokens → (r.rewardData token).lastUpdateTime = 0
  distributors : ∀ token d, r.rewardDistributors token d = true → token ∈ r.rewardTokens

/-- `updateReward` updates registered tokens only. -/
theorem Registered.updateReward {s s' : Storage} {now : ℕ} {a : Address}
    (h : Registered s.rewards) (hx : Locker.updateReward s now a = .ok s') :
    Registered s'.rewards := by
  have hacc := updateReward_accrued hx
  refine ⟨fun token hm => ?_, ?_⟩
  · rw [hacc.rewardTokens] at hm
    refine foldlM_keeps (fun s₁ => (s₁.rewards.rewardData token).lastUpdateTime = 0)
      (fun other ho s₁ s₂ hs₁ hs₂ => ?_) (h.updated token hm) hx
    obtain ⟨rfl, -⟩ := updateRewardToken_eq_ok hs₂
    have hne : token ≠ other := fun he => hm (he ▸ ho)
    rw [(accrue_of_ne s₁ now a hne).1]
    exact hs₁
  · rw [hacc.rewardTokens, hacc.rewardDistributors]
    exact h.distributors

/-- The locker is solvent in every token but the staking token. -/
structure Solvent (w : World) : Prop where
  now_pos : 0 < w.now
  registered : Registered w.locker.rewards
  notReward : w.locker.config.stakingToken ∉ w.locker.rewards.rewardTokens
  funded : ∀ token, token ≠ w.locker.config.stakingToken →
    Funded w.now w.locker token (w.balance token w.locker.config.self)

/-- What matters to `Solvent` is as it was. -/
theorem Solvent.congr (h : Solvent w) (hn : w.now ≤ w'.now)
    (hr : w'.locker.rewards = w.locker.rewards)
    (hb : w'.locker.ledger.balances = w.locker.ledger.balances)
    (hself : w'.locker.config.self = w.locker.config.self)
    (hst : w'.locker.config.stakingToken = w.locker.config.stakingToken)
    (hbal : ∀ token, w.balance token w.locker.config.self ≤
      w'.balance token w.locker.config.self) : Solvent w' := by
  refine ⟨h.now_pos.trans_le hn, ?_, ?_, fun token hne => ?_⟩
  · rw [hr]
    exact h.registered
  · rw [hr, hst]
    exact h.notReward
  · rw [hst] at hne
    rw [hself]
    exact (((h.funded token hne).time hn).mono (hbal token)).congr (by rw [hr])
      (fun _ => by rw [hr]) (by rw [hr]) hb

/-- Other settings do not matter. -/
theorem Solvent.reconfigured (h : Solvent w) (hn : w.now ≤ w'.now)
    (hr : Reconfigured w.locker w'.locker)
    (hbal : ∀ token, w.balance token w.locker.config.self ≤
      w'.balance token w.locker.config.self) : Solvent w' :=
  h.congr hn hr.rewards (by rw [hr.ledger]) hr.self hr.stakingToken hbal

/-- All users but the zero account have at most the supply. -/
theorem Sums.users_le {now : ℕ} {s : Storage} (h : Sums now s) :
    ∑ u ∈ users, (s.ledger.balances u).locked ≤ s.ledger.lockedSupply := by
  rw [h.supply]
  exact sum_le_sum_of_subset (subset_univ _)

/-- After `updateReward` the account is settled in every token. -/
theorem Solvent.settled {s : Storage} {a : Address} (h : Solvent w)
    (hsup : Sums w.now w.locker) (hx : updateReward w.locker w.now a = .ok s) (token : Address)
    (hne : token ≠ w.locker.config.stakingToken) : a = 0 ∨ Settled s a token := by
  by_cases ha : a = 0
  · exact .inl ha
  refine .inr ?_
  by_cases hm : token ∈ w.locker.rewards.rewardTokens
  · exact updateReward_settled ha hx token hm
  · have hf := (h.funded token hne).updateReward h.now_pos hsup.users_le hx
    have hz := (h.registered.updateReward hx).updated token
      (by rwa [(updateReward_accrued hx).rewardTokens])
    rw [Settled, (hf.idle hz).1]
    exact Nat.zero_le _

theorem Solvent.lock {a : Address} {n : ℕ} (h : Solvent w) (hsup : Sums w.now w.locker)
    (hx : Locker.lock w sender a n = .ok w') : Solvent w' := by
  obtain ⟨s₀, w₁, h₀, hmv, ht, hn, hl⟩ := lockCall_eq_ok hx
  have ha := updateReward_accrued h₀
  refine ⟨hn ▸ h.now_pos, ?_, ?_, fun token hne => ?_⟩
  · rw [hl.rewards]
    exact h.registered.updateReward h₀
  · rw [hl.rewards, hl.config, ha.config, ha.rewardTokens]
    exact h.notReward
  · rw [hl.config, ha.config] at hne ⊢
    have hbal : w'.balance token w.locker.config.self = w.balance token w.locker.config.self := by
      rw [World.balance, ht]
      exact congrFun (hmv.balance_of_ne (ha.config ▸ hne)) _
    rw [hn, hbal]
    exact ((h.funded token hne).updateReward h.now_pos hsup.users_le h₀).lock
      (h.settled hsup h₀ token hne) hl

theorem Solvent.processExpiredLocks {a ra : Address} {relock : Bool} {d : ℕ} (h : Solvent w)
    (hsup : Sums w.now w.locker)
    (hx : _processExpiredLocks w sender a relock ra d = .ok w') : Solvent w' := by
  obtain ⟨s₀, s₁, x, w₁, h₀, hex, -, hl₁, hn₁, hmv, hx⟩ := processExpiredLocks_eq_ok hx
  have ha := updateReward_accrued h₀
  have hcfg : s₁.config = w.locker.config := hex.config.trans ha.config
  -- only staking tokens move
  have hbal₁ : ∀ token, token ≠ w.locker.config.stakingToken →
      w₁.balance token = w.balance token := by
    intro token hne
    split_ifs at hmv with hr
    · exact hmv.balance_of_ne (hcfg ▸ hne)
    · rw [hmv]
      rfl
  have hf₁ : ∀ token, token ≠ w.locker.config.stakingToken →
      Funded w.now s₁ token (w.balance token w.locker.config.self) := fun token hne =>
    ((h.funded token hne).updateReward h.now_pos hsup.users_le h₀).reduce hex.rewards
      (by rw [hex.ledger]) (Nat.sub_le _ _)
  have hreg : Registered s₁.rewards := by
    rw [hex.rewards]
    exact h.registered.updateReward h₀
  have hnot : s₁.config.stakingToken ∉ s₁.rewards.rewardTokens := by
    rw [hex.rewards, hcfg, ha.rewardTokens]
    exact h.notReward
  cases relock with
  | true =>
    obtain ⟨ht, hn, hl⟩ := hx
    refine ⟨hn ▸ h.now_pos, by rwa [hl.rewards], by rwa [hl.rewards, hl.config],
      fun token hne => ?_⟩
    rw [hl.config, hcfg] at hne ⊢
    have hset : a = 0 ∨ Settled s₁ a token := by
      rw [Settled, hex.rewards]
      exact h.settled hsup h₀ token hne
    rw [hn, World.balance, ht, ← World.balance, hbal₁ token hne]
    exact (hf₁ token hne).lock hset hl
  | false =>
    have hmv' : w₁.Moved w' _ _ _ _ := hx
    have hl : w'.locker = s₁ := hmv'.locker.trans hl₁
    refine ⟨hmv'.now ▸ hn₁ ▸ h.now_pos, by rwa [hl], by rwa [hl], fun token hne => ?_⟩
    rw [hl, hcfg] at hne ⊢
    rw [hmv'.now, hn₁, hmv'.balance_of_ne (hcfg ▸ hne), hbal₁ token hne]
    exact hf₁ token hne

theorem Solvent.emergencyWithdraw (h : Solvent w)
    (hx : Locker.emergencyWithdraw w sender = .ok w') : Solvent w' := by
  obtain ⟨-, -, -, s₁, rfl, hmv⟩ := emergencyWithdraw_eq_ok hx
  have hl := hmv.locker
  refine ⟨hmv.now ▸ h.now_pos, by rw [hl]; exact h.registered, by rw [hl]; exact h.notReward,
    fun token hne => ?_⟩
  rw [hl] at hne ⊢
  rw [hmv.now, hmv.balance_of_ne hne]
  exact (h.funded token hne).reduce rfl rfl (Nat.zero_le _)

/-- Paying out rewards. -/
theorem Solvent.payReward {w₁ w₂ : World} {a token : Address} {stake : Bool} (h : Solvent w₁)
    (hm : token ∈ w₁.locker.rewards.rewardTokens)
    (hx : Locker.payReward w₁ sender a stake token = .ok w₂) : Solvent w₂ := by
  rcases payReward_eq_ok hx with rfl | ⟨dst, hmv⟩
  · exact h
  have hl := hmv.locker
  refine ⟨hmv.now ▸ h.now_pos, by rw [hl]; exact ⟨h.registered.updated, h.registered.distributors⟩,
    by rw [hl]; exact h.notReward, fun other hne => ?_⟩
  rw [hl] at hne ⊢
  rw [hmv.now]
  have hf := h.funded other hne
  have hle : w₁.balance other w₁.locker.config.self ≤
      w₂.balance other w₁.locker.config.self + if other = token then
        (w₁.locker.rewards.userData a token).rewards else 0 := hmv.le_balance_src other
  by_cases he : other = token
  · subst he
    rw [if_pos rfl] at hle
    exact (hf.mono hle).clear
  · rw [if_neg he, Nat.add_zero] at hle
    exact (hf.mono hle).clear_of_ne he

/-- Queueing rewards keeps the rest of the registered data. -/
theorem Registered.queueRewards {s s' : Storage} {now n : ℕ} {token : Address}
    (h : Registered s.rewards) (hm : token ∈ s.rewards.rewardTokens)
    (hx : Locker.queueRewards s now token n = .ok s') : Registered s'.rewards := by
  obtain ⟨-, -, -, ht, hd⟩ := queueRewards_keeps hx
  refine ⟨fun other ho => ?_, ?_⟩
  · rw [ht] at ho
    have hne : other ≠ token := fun he => ho (he ▸ hm)
    obtain ⟨-, ⟨s₁, h₁, rfl⟩ | ⟨-, rfl⟩⟩ := queueRewards_eq_ok hx
    · obtain ⟨s₀, rate, h₀, -, -, -, -, rfl⟩ := notifyReward_eq_ok h₁
      have hz := (h.updateReward h₀).updated other
        (by rwa [(updateReward_accrued h₀).rewardTokens])
      simpa [setQueued, setRewardData, hne] using hz
    · exact h.updated other ho
  · rw [ht, hd]
    exact h.distributors

theorem Solvent.queueNewRewards {token : Address} {n : ℕ} (h : Solvent w)
    (hsup : Sums w.now w.locker) (hc : IsCaller w sender)
    (hx : Locker.queueNewRewards w sender token n = .ok w') : Solvent w' := by
  obtain ⟨hd, w₁, hmv, hq, ht, hn⟩ := queueNewRewards_eq_ok hx
  have hm := h.registered.distributors token sender hd
  obtain ⟨-, -, hcf, hrt, -⟩ := queueRewards_keeps hq
  refine ⟨hn ▸ h.now_pos, h.registered.queueRewards hm hq, ?_, fun other hne => ?_⟩
  · rw [hcf, hrt]
    exact h.notReward
  · rw [hcf] at hne ⊢
    have hbal := hmv.balance_dst hc.2 other
    rw [hn, World.balance, ht, ← World.balance, hbal]
    by_cases he : other = token
    · subst he
      rw [if_pos rfl]
      exact (h.funded other hne).queueRewards h.now_pos hsup.users_le hq
    · rw [if_neg he, Nat.add_zero]
      exact (h.funded other hne).queueRewards_of_ne h.now_pos hsup.users_le he hq

/-- Registering a token. -/
theorem Solvent.addReward {s : Storage} {token dist : Address} (h : Solvent w)
    (hx : Locker.addReward w.locker w.now sender token dist = .ok s) :
    Solvent { w with locker := s } := by
  have hf : ∀ other, other ≠ w.locker.config.stakingToken →
      Funded w.now s other (w.balance other w.locker.config.self) :=
    fun other hne => (h.funded other hne).addReward hx
  obtain ⟨-, hst, -, rfl⟩ := addReward_eq_ok hx
  refine ⟨h.now_pos, ⟨fun other ho => ?_, fun other d hd => ?_⟩, fun hm => ?_, hf⟩
  · have ho : other ∉ w.locker.rewards.rewardTokens ++ [token] := ho
    rw [List.mem_append, List.mem_singleton, not_or] at ho
    simpa [setDistributor, ho.2] using h.registered.updated other ho.1
  · show other ∈ w.locker.rewards.rewardTokens ++ [token]
    by_cases he : other = token
    · subst he
      simp
    · refine List.mem_append_left _ (h.registered.distributors other d ?_)
      simpa [setDistributor, he] using hd
  · rcases List.mem_append.1 hm with hm | hm
    · exact h.notReward hm
    · exact hst (List.mem_singleton.1 hm).symm

/-- Approving a distributor of a token that is registered. -/
theorem Solvent.approveRewardDistributor {s : Storage} {token dist : Address} {b : Bool}
    (h : Solvent w) (hx : Locker.approveRewardDistributor w.locker sender token dist b = .ok s) :
    Solvent { w with locker := s } := by
  obtain ⟨hpos, rfl⟩ := approveRewardDistributor_eq_ok hx
  refine ⟨h.now_pos, ⟨h.registered.updated, fun other d hd => ?_⟩, h.notReward,
    fun other hne => (h.funded other hne).congr rfl (fun _ => rfl) rfl rfl⟩
  by_cases he : other = token
  · subst he
    by_contra hm
    exact hpos.ne' (h.registered.updated other hm)
  · refine h.registered.distributors other d ?_
    simpa [setDistributor, he] using hd

/-- Nothing is owed of a token that was never updated, so any of it can leave. -/
theorem Solvent.recoverERC20 {token : Address} {n : ℕ} (h : Solvent w)
    (hx : Locker.recoverERC20 w sender token n = .ok w') : Solvent w' := by
  obtain ⟨hst, hz, hmv⟩ := recoverERC20_eq_ok hx
  have hl := hmv.locker
  refine ⟨hmv.now ▸ h.now_pos, by rw [hl]; exact h.registered, by rw [hl]; exact h.notReward,
    fun other hne => ?_⟩
  rw [hl] at hne ⊢
  rw [hmv.now]
  by_cases he : other = token
  · subst he
    exact (h.funded other hne).of_idle hz _
  · rw [hmv.balance_of_ne he]
    exact h.funded other hne

/-- Every call keeps the locker solvent. -/
theorem Solvent.exec {c : Call} (h : Solvent w) (hsup : Sums w.now w.locker)
    (hc : IsCaller w sender) (hx : Locker.exec w sender c = .ok w') : Solvent w' := by
  -- paying rewards, together with the list of reward tokens it runs over
  have hpay : ∀ (a : Address) (b : Bool) (w₁ w₂ : World) (token : Address),
      token ∈ w.locker.rewards.rewardTokens →
      (Solvent w₁ ∧ w₁.locker.rewards.rewardTokens = w.locker.rewards.rewardTokens) →
      Locker.payReward w₁ sender a b token = .ok w₂ →
      Solvent w₂ ∧ w₂.locker.rewards.rewardTokens = w.locker.rewards.rewardTokens := by
    rintro a b w₁ w₂ token hm ⟨hw₁, ht⟩ hp
    exact ⟨hw₁.payReward (ht ▸ hm) hp, (payReward_rewardTokens hp).trans ht⟩
  have hacc : ∀ (a : Address) (s : Storage), updateReward w.locker w.now a = .ok s →
      Solvent { w with locker := s } ∧ s.rewards.rewardTokens = w.locker.rewards.rewardTokens := by
    intro a s hs
    have ha := updateReward_accrued hs
    refine ⟨⟨h.now_pos, h.registered.updateReward hs, ?_, fun token hne => ?_⟩, ha.rewardTokens⟩
    · rw [ha.config, ha.rewardTokens]
      exact h.notReward
    · dsimp only at hne ⊢
      rw [ha.config] at hne ⊢
      exact (h.funded token hne).updateReward h.now_pos hsup.users_le hs
  cases c with
  | lock a n => exact h.lock hsup hx
  | getReward a b => exact (getReward_keeps (hacc a) (hpay a b) hx).1
  | getRewardSkip a l => exact (getRewardSkip_keeps (hacc a) (hpay a false) hx).1
  | checkpointEpoch =>
    obtain ⟨l, hl, hx⟩ := bind_eq_ok.1 (hx : w.checkpointEpoch = .ok w')
    cases hx
    exact h.congr le_rfl rfl (checkpointEpoch_keeps hl).1 rfl rfl fun _ => le_rfl
  | processExpiredLocks r => exact h.processExpiredLocks hsup hx
  | kickExpiredLocks a =>
    obtain ⟨d, -, hx⟩ := bind_eq_ok.1 (hx : Locker.kickExpiredLocks w sender a = .ok w')
    exact h.processExpiredLocks hsup hx
  | emergencyWithdraw => exact h.emergencyWithdraw hx
  | delegate d =>
    obtain ⟨s', hs, rfl⟩ := withLocker_eq_ok hx
    obtain ⟨-, -, -, _, _, -, -, -, hs⟩ := delegate_eq_ok hs
    rw [hs]
    exact h.congr le_rfl rfl rfl rfl rfl fun _ => le_rfl
  | queueNewRewards t n => exact h.queueNewRewards hsup hc hx
  | addReward t d =>
    obtain ⟨s', hs, rfl⟩ := withLocker_eq_ok hx
    exact h.addReward hs
  | approveRewardDistributor t d b =>
    obtain ⟨s', hs, rfl⟩ := withLocker_eq_ok hx
    exact h.approveRewardDistributor hs
  | setKickIncentive _ _ | shutdown | modifyBlacklist _ _ | transferOwnership _ | setApprovals =>
    obtain ⟨hr, hn, hb⟩ := exec_reconfigured rfl hx
    exact h.reconfigured hn.ge hr fun k => by rw [hb]
  | recoverERC20 t n => exact h.recoverERC20 hx

/-- The locker is solvent in every reachable world. -/
theorem Reachable.solvent {log : List Event} (h : Reachable log w) : Solvent w := by
  refine Reachable.induct (P := fun _ w => Solvent w) ?_ ?_ ?_ h
  · intro w hw
    refine ⟨hw.now_pos, ?_, ?_, fun token _ => hw.deploys.funded token _⟩ <;> rw [hw.locker]
    · exact ⟨fun _ _ => rfl, fun _ _ hd => absurd hd (by simp [deploy])⟩
    · simp [deploy]
  · intro _ w w' _ hw he
    exact hw.congr he.now (by rw [he.locker]) (by rw [he.locker]) (by rw [he.locker])
      (by rw [he.locker]) he.balances
  · intro _ w w' sender c hr hw hc hx
    obtain ⟨first, hinv⟩ := hr.ledgerInv
    exact hw.exec hinv.sums hc hx

/-! ## Every claim can be paid -/

/-- What everybody could claim now, what is queued and what is still to be streamed is covered. -/
theorem Funded.solvent {now : ℕ} {s : Storage} {token : Address} {funds : ℕ}
    (h : Funded now s token funds)
    (hsup : ∑ u ∈ users, (s.ledger.balances u).locked ≤ s.ledger.lockedSupply) :
    ∑ u ∈ users, (accrued s now token).earned precision u + s.rewards.queuedRewards token +
        (s.rewards.rewardData token).rewardRate * ((s.rewards.rewardData token).periodFinish -
          max now (s.rewards.rewardData token).lastUpdateTime) ≤ funds := by
  have hearned : (∑ u ∈ users, (accrued s now token).earned precision u) * precision ≤ _ :=
    (Accumulator.sum_earned_le precision).trans (owed_accrued_le hsup)
  have hstream := streamed_add _ now h.updated_le h.updated_le_finish
  have hcov := h.covered
  unfold obligations at hcov
  dsimp only at hcov
  set r := s.rewards.rewardData token with hr
  have hrest : r.rewardRate * (r.periodFinish - max now r.lastUpdateTime) * precision ≤
      r.rewardRate * (r.periodFinish - _lastTimeRewardApplicable now r.periodFinish) *
        precision := by
    refine Nat.mul_le_mul_right _ (Nat.mul_le_mul_left _ (Nat.sub_le_sub_left ?_ _))
    exact (applicable_le_now now _).trans (le_max_left _ _)
  refine Nat.le_of_mul_le_mul_right ?_ precision_pos
  rw [Nat.add_mul] at hcov
  rw [Nat.add_mul, Nat.add_mul]
  omega

/-- In every reachable world the locker holds, of every reward token, what all accounts but
zero have earned, what is queued and what is still to be streamed. -/
theorem rewards_solvent {log : List Event} {w : World} (h : Reachable log w) {token : Address}
    (hm : token ∈ w.locker.rewards.rewardTokens) :
    ∃ earned : Address → ℕ,
      (∀ u, u ≠ 0 → _earned w.locker w.now u token (w.locker.ledger.balances u).locked =
        .ok (earned u)) ∧
      ∑ u ∈ univ.erase 0, earned u + w.locker.rewards.queuedRewards token +
          (w.locker.rewards.rewardData token).rewardRate *
            ((w.locker.rewards.rewardData token).periodFinish -
              max w.now (w.locker.rewards.rewardData token).lastUpdateTime) ≤
        w.balance token w.locker.config.self := by
  obtain ⟨first, hinv⟩ := h.ledgerInv
  have hsup := hinv.sums.users_le
  have hf := h.solvent.funded token fun he => h.solvent.notReward (he ▸ hm)
  exact ⟨_, fun u hu => hf.earned_eq hsup hu, hf.solvent hsup⟩

/-- The account 1 locks, and 604800 of the token 300 are streamed over a week. -/
theorem rewards_solvent_run : ∃ w : World, ∃ earned : Address → ℕ,
    _earned w.locker w.now 1 300 (w.locker.ledger.balances 1).locked = .ok (earned 1) ∧
      ∑ u ∈ univ.erase 0, earned u ≤ w.balance 300 w.locker.config.self := by
  let start := 20 * rewardsDuration
  let log : List Event := [⟨start, 1, .lock 1 (10 ^ 20)⟩, ⟨start, 101, .addReward 300 1⟩,
    ⟨start, 1, .queueNewRewards 300 rewardsDuration⟩,
    ⟨start + rewardsDuration, 1, .checkpointEpoch⟩]
  have h : Reachable log ((World.initial start).after log) :=
    ⟨_, World.initial_deployed (by decide), .after (by decide +kernel)⟩
  obtain ⟨earned, hearned, hsum⟩ := rewards_solvent h
    (show (300 : Address) ∈ _ by decide +kernel)
  refine ⟨_, earned, hearned 1 (by decide), le_trans ?_ hsum⟩
  rw [Nat.add_assoc]
  exact Nat.le_add_right _ _

/-- A lock for the zero account counts for all that was streamed before it. -/
theorem earned_zero : ¬∀ {log : List Event} {w : World}, Reachable log w → ∀ token,
    token ∈ w.locker.rewards.rewardTokens → ∀ earned : Address → ℕ,
      (∀ u, _earned w.locker w.now u token (w.locker.ledger.balances u).locked =
        .ok (earned u)) →
      ∑ u, earned u + w.locker.rewards.queuedRewards token +
          (w.locker.rewards.rewardData token).rewardRate *
            ((w.locker.rewards.rewardData token).periodFinish -
              max w.now (w.locker.rewards.rewardData token).lastUpdateTime) ≤
        w.balance token w.locker.config.self := by
  intro h
  let start := 20 * rewardsDuration
  let log : List Event := [⟨start, 1, .lock 1 (10 ^ 20)⟩, ⟨start, 101, .addReward 300 1⟩,
    ⟨start, 1, .queueNewRewards 300 rewardsDuration⟩,
    ⟨start + rewardsDuration, 1, .getReward 1 false⟩,
    ⟨start + rewardsDuration, 1, .lock 0 (10 ^ 20)⟩]
  let w := (World.initial start).after log
  have hrun : Reachable log w :=
    ⟨_, World.initial_deployed (by decide), .after (by decide +kernel)⟩
  have hzero : _earned w.locker w.now 0 300 (w.locker.ledger.balances 0).locked =
      .ok rewardsDuration := by decide +kernel
  have hall : ∀ u, ∃ x, _earned w.locker w.now u 300 (w.locker.ledger.balances u).locked =
      .ok x := by
    intro u
    by_cases hu : u = 0
    · subst hu
      exact ⟨_, hzero⟩
    · obtain ⟨first, hinv⟩ := hrun.ledgerInv
      exact ⟨_, (hrun.solvent.funded 300 (by decide +kernel)).earned_eq hinv.sums.users_le hu⟩
  choose earned hearned using hall
  have hle := h hrun 300 (by decide +kernel) earned hearned
  have hbal : w.balance 300 w.locker.config.self = 0 := by decide +kernel
  have hpaid := le_sum earned 0
  have hearned₀ : earned 0 = rewardsDuration :=
    Except.ok.inj ((hearned 0).symm.trans hzero)
  rw [hbal] at hle
  rw [hearned₀] at hpaid
  have hsum := (Nat.le_add_right _ _).trans ((Nat.le_add_right _ _).trans hle)
  exact absurd (hpaid.trans hsum) (by decide)

end Aura.Locker
