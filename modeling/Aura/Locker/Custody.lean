import Aura.Locker.Ledger

/-!
# AuraLocker : custody of the locked tokens

The locker holds at least what is locked (`Custody`), whatever calls are made. Together
with the invariants of the ledger this is the exit guarantee : after a shutdown every
user can withdraw what it has locked, at any time and in any order
(`emergencyWithdraw_exits`).
-/

open Evm Function

namespace Aura.Locker

/-- The locker holds what is locked, and the staking token is no reward token. -/
structure Custody (w : World) : Prop where
  covered : w.locker.ledger.lockedSupply ≤
    w.balance w.locker.config.stakingToken w.locker.config.self
  notReward : w.locker.config.stakingToken ∉ w.locker.rewards.rewardTokens

variable {w w' : World} {sender : Address}

/-- Accruing rewards moves no tokens. -/
theorem Custody.accrued {s : Storage} (h : Custody w) (ha : Accrued w.locker s) :
    Custody { w with locker := s } := by
  refine ⟨?_, ?_⟩
  · rw [ha.ledger, ha.config]
    exact h.covered
  · rw [ha.config, ha.rewardTokens]
    exact h.notReward

/-- Other settings move no tokens. -/
theorem Custody.reconfigured (h : Custody w) (hr : Reconfigured w.locker w'.locker)
    (hb : ∀ k, w'.balance k = w.balance k) : Custody w' := by
  refine ⟨?_, ?_⟩
  · rw [hr.ledger, hr.self, hr.stakingToken, hb]
    exact h.covered
  · rw [hr.stakingToken, hr.rewards]
    exact h.notReward

/-- A movement of another token. -/
theorem Custody.moved {token src dst : Address} {n : ℕ} (h : Custody w)
    (hmv : w.Moved w' token src dst n) (hne : token ≠ w.locker.config.stakingToken) :
    Custody w' := by
  refine ⟨?_, ?_⟩
  · rw [hmv.locker, hmv.balance_of_ne hne.symm]
    exact h.covered
  · rw [hmv.locker]
    exact h.notReward

theorem Custody.lock {a : Address} {n : ℕ} (h : Custody w) (hc : IsCaller w sender)
    (hx : Locker.lock w sender a n = .ok w') : Custody w' := by
  obtain ⟨s₀, w₁, h₀, hmv, ht, -, hl⟩ := lockCall_eq_ok hx
  have ha := updateReward_accrued h₀
  obtain ⟨_, -, -, hsup, -, -⟩ := hl.ledger_eq
  have hself : sender ≠ s₀.config.self := ha.config ▸ hc.2
  have hcov := (h.accrued ha).covered
  have hbal := hmv.balance_dst hself s₀.config.stakingToken
  have hbal' : w'.balance s₀.config.stakingToken s₀.config.self =
      w₁.balance s₀.config.stakingToken s₀.config.self := by rw [World.balance, ht]; rfl
  refine ⟨?_, ?_⟩
  · rw [hl.config, hsup, hbal', hbal, if_pos rfl]
    exact Nat.add_le_add_right hcov n
  · rw [hl.config, hl.rewards]
    exact (h.accrued ha).notReward

theorem Custody.processExpiredLocks {a ra : Address} {relock : Bool} {d : ℕ} (h : Custody w)
    (hx : _processExpiredLocks w sender a relock ra d = .ok w') : Custody w' := by
  obtain ⟨s₀, s₁, x, w₁, h₀, hex, hle, hl₁, -, hmv, hx⟩ := processExpiredLocks_eq_ok hx
  have ha := updateReward_accrued h₀
  have hcov := (h.accrued ha).covered
  have hnot := (h.accrued ha).notReward
  have hsup := hex.supply_le
  have hledger := hex.ledger
  rw [← hex.config] at hcov hnot
  rw [← hex.rewards] at hnot
  dsimp only at hcov hnot
  -- the kick reward leaves at least the rest of the supply
  have hcov₁ : s₁.ledger.lockedSupply + (x.locked - x.reward) ≤
      w₁.balance s₁.config.stakingToken s₁.config.self := by
    rw [hledger]
    dsimp only
    split_ifs at hmv with hr
    · have := hmv.le_balance_src s₁.config.stakingToken
      rw [if_pos rfl] at this
      have : w.balance s₁.config.stakingToken s₁.config.self ≤
        w₁.balance s₁.config.stakingToken s₁.config.self + x.reward := this
      have : s₀.ledger.lockedSupply ≤ w.balance s₁.config.stakingToken s₁.config.self := hcov
      omega
    · have : s₀.ledger.lockedSupply ≤ w₁.balance s₁.config.stakingToken s₁.config.self := by
        rw [hmv]
        exact hcov
      omega
  cases relock with
  | true =>
    obtain ⟨ht, -, hl⟩ := hx
    obtain ⟨_, -, -, hsup', -, -⟩ := hl.ledger_eq
    refine ⟨?_, ?_⟩
    · rw [hl.config, hsup', World.balance, ht]
      exact hcov₁
    · rw [hl.config, hl.rewards]
      exact hnot
  | false =>
    have hmv' : w₁.Moved w' _ _ _ _ := hx
    have := hmv'.le_balance_src s₁.config.stakingToken
    rw [if_pos rfl] at this
    refine ⟨?_, ?_⟩
    · rw [hmv'.locker, hl₁]
      omega
    · rw [hmv'.locker, hl₁]
      exact hnot

theorem Custody.emergencyWithdraw (h : Custody w)
    (hx : Locker.emergencyWithdraw w sender = .ok w') : Custody w' := by
  obtain ⟨-, -, hle, s₁, rfl, hmv⟩ := emergencyWithdraw_eq_ok hx
  have hbal := hmv.le_balance_src w.locker.config.stakingToken
  rw [if_pos rfl] at hbal
  have hcov := h.covered
  refine ⟨?_, ?_⟩
  · rw [hmv.locker]
    dsimp only
    change w.balance _ _ ≤ _ at hbal
    omega
  · rw [hmv.locker]
    exact h.notReward

/-- Paying out a reward token. -/
theorem Custody.payReward {w₁ w₂ : World} {a token : Address} {stake : Bool} (h : Custody w₁)
    (ht : token ∈ w₁.locker.rewards.rewardTokens)
    (hx : Locker.payReward w₁ sender a stake token = .ok w₂) : Custody w₂ := by
  rcases payReward_eq_ok hx with rfl | ⟨dst, hmv⟩
  · exact h
  · have hc : Custody { w₁ with locker := clearRewards w₁.locker a token } :=
      ⟨h.covered, h.notReward⟩
    exact hc.moved hmv fun he => h.notReward (he ▸ ht)

theorem Custody.queueNewRewards {token : Address} {n : ℕ} (h : Custody w) (hc : IsCaller w sender)
    (hx : Locker.queueNewRewards w sender token n = .ok w') : Custody w' := by
  obtain ⟨-, w₁, hmv, hq, ht, -⟩ := queueNewRewards_eq_ok hx
  have hbal := hmv.balance_dst hc.2 w.locker.config.stakingToken
  obtain ⟨hl, -, hcf, hrt, -⟩ := queueRewards_keeps hq
  refine ⟨?_, ?_⟩
  · rw [hl, hcf, World.balance, ht]
    show _ ≤ w₁.balance _ _
    rw [hbal]
    exact h.covered.trans (Nat.le_add_right _ _)
  · rw [hcf, hrt]
    exact h.notReward

/-- Every call keeps the locked tokens in custody. -/
theorem Custody.exec {c : Call} (h : Custody w) (hc : IsCaller w sender)
    (hx : Locker.exec w sender c = .ok w') : Custody w' := by
  -- paying rewards, together with the list of reward tokens it runs over
  have hpay : ∀ (a : Address) (b : Bool) (w₁ w₂ : World) (token : Address),
      token ∈ w.locker.rewards.rewardTokens →
      (Custody w₁ ∧ w₁.locker.rewards.rewardTokens = w.locker.rewards.rewardTokens) →
      Locker.payReward w₁ sender a b token = .ok w₂ →
      Custody w₂ ∧ w₂.locker.rewards.rewardTokens = w.locker.rewards.rewardTokens := by
    rintro a b w₁ w₂ token hm ⟨hw₁, ht⟩ hp
    exact ⟨hw₁.payReward (ht ▸ hm) hp, (payReward_rewardTokens hp).trans ht⟩
  have hacc : ∀ (a : Address) (s : Storage), updateReward w.locker w.now a = .ok s →
      Custody { w with locker := s } ∧ s.rewards.rewardTokens = w.locker.rewards.rewardTokens :=
    fun a s hs => ⟨h.accrued (updateReward_accrued hs), (updateReward_accrued hs).rewardTokens⟩
  cases c with
  | lock a n => exact h.lock hc hx
  | getReward a b => exact (getReward_keeps (hacc a) (hpay a b) hx).1
  | getRewardSkip a l => exact (getRewardSkip_keeps (hacc a) (hpay a false) hx).1
  | checkpointEpoch =>
    obtain ⟨l, hl, hx⟩ := bind_eq_ok.1 (hx : w.checkpointEpoch = .ok w')
    cases hx
    obtain ⟨-, -, hsup⟩ := checkpointEpoch_keeps hl
    exact ⟨hsup ▸ h.covered, h.notReward⟩
  | processExpiredLocks r => exact h.processExpiredLocks hx
  | kickExpiredLocks a =>
    obtain ⟨d, -, hx⟩ := bind_eq_ok.1 (hx : Locker.kickExpiredLocks w sender a = .ok w')
    exact h.processExpiredLocks hx
  | emergencyWithdraw => exact h.emergencyWithdraw hx
  | delegate d =>
    obtain ⟨s', hs, rfl⟩ := withLocker_eq_ok hx
    obtain ⟨-, -, -, _, _, -, -, -, hs⟩ := delegate_eq_ok hs
    rw [hs]
    exact ⟨h.covered, h.notReward⟩
  | queueNewRewards t n => exact h.queueNewRewards hc hx
  | addReward t d =>
    obtain ⟨s', hs, rfl⟩ := withLocker_eq_ok hx
    obtain ⟨-, hne, -, rfl⟩ := addReward_eq_ok hs
    refine ⟨h.covered, fun hm => ?_⟩
    rcases List.mem_append.1 hm with hm | hm
    · exact h.notReward hm
    · exact hne (List.mem_singleton.1 hm).symm
  | approveRewardDistributor t d b =>
    obtain ⟨s', hs, rfl⟩ := withLocker_eq_ok hx
    obtain ⟨-, rfl⟩ := approveRewardDistributor_eq_ok hs
    exact ⟨h.covered, h.notReward⟩
  | setKickIncentive _ _ | shutdown | modifyBlacklist _ _ | transferOwnership _ | setApprovals =>
    obtain ⟨hr, -, hb⟩ := exec_reconfigured rfl hx
    exact h.reconfigured hr hb
  | recoverERC20 t n =>
    obtain ⟨hne, -, hmv⟩ := recoverERC20_eq_ok hx
    exact h.moved hmv hne

/-- The locked tokens are in custody in every reachable world. -/
theorem Reachable.custody {log : List Event} (h : Reachable log w) : Custody w := by
  refine Reachable.induct (P := fun _ w => Custody w) ?_ ?_ ?_ h
  · intro w hw
    refine ⟨?_, ?_⟩ <;> rw [hw.locker]
    · exact Nat.zero_le _
    · simp [deploy]
  · intro _ w w' _ hw he
    refine ⟨?_, ?_⟩
    · rw [he.locker]
      exact hw.covered.trans (he.balances _)
    · rw [he.locker]
      exact hw.notReward
  · exact fun _ w w' sender c _ hw hc hx => hw.exec hc hx

/-! ## The exit guarantee -/

/-- The address of the locker never becomes zero. -/
theorem Reachable.self_ne {log : List Event} (h : Reachable log w) :
    w.locker.config.self ≠ 0 := by
  obtain ⟨w₀, h₀, hs⟩ := h
  rw [hs.self_eq]
  exact h₀.self_ne

/-- There is at most one lock record for each week. -/
theorem WellDated.length_le {locks : List LockedBalance} {n : ℕ} (h : WellDated locks n) :
    locks.length ≤ n + 18 := by
  have hnd : (locks.map (·.unlockTime)).Nodup := by
    refine List.Pairwise.map _ (fun _ _ hlt => ?_) h.sorted
    exact hlt.ne
  have hsub : locks.map (·.unlockTime) ⊆
      (List.range (n + 18)).map (· * rewardsDuration) := by
    intro t ht
    obtain ⟨l, hl, rfl⟩ := List.mem_map.1 ht
    obtain ⟨k, hk, ht⟩ := h.grid l hl
    exact List.mem_map.2 ⟨k + 17, List.mem_range.2 (by omega), ht.symm⟩
  have := (List.subperm_of_subset hnd hsub).length_le
  simpa using this

/-- As long as unlock times fit in `uint32`, so do the indices of lock records. -/
theorem Dated.userLocks_length_lt {first n now : ℕ} {s : Storage} (h : Dated first n now s)
    (hfit : Fits now) (u : Address) : (s.ledger.userLocks u).length < 2 ^ 32 := by
  have h1 := (h.dated u).length_le
  have h2 := h.current
  unfold Fits at hfit
  rw [epochOf_add_lock] at hfit
  have h3 : (week now + 17) * 2 ≤ (week now + 17) * rewardsDuration :=
    Nat.mul_le_mul_left _ (by decide)
  omega

/-- A user that calls after a shutdown withdraws all it has locked, and nothing else
changes for anybody. The world after it is reachable again, so the others can follow in
any order. -/
theorem emergencyWithdraw_exits {log : List Event} {u : Address} (h : Reachable log w)
    (hlen : (w.locker.ledger.userLocks u).length < 2 ^ 32)
    (hsd : w.locker.config.isShutdown = true) (hu : IsCaller w u)
    (hpos : 0 < (w.locker.ledger.balances u).locked) :
    ∃ w', emergencyWithdraw w u = .ok w' ∧
      Reachable (log ++ [⟨w.now, u, .emergencyWithdraw⟩]) w' ∧
      w'.balance w.locker.config.stakingToken u =
        w.balance w.locker.config.stakingToken u + (w.locker.ledger.balances u).locked ∧
      (w'.locker.ledger.balances u).locked = 0 ∧
      (∀ v, v ≠ u → w'.locker.ledger.balances v = w.locker.ledger.balances v) ∧
      w'.locker.rewards = w.locker.rewards := by
  obtain ⟨first, hinv⟩ := h.ledgerInv
  have hle : (w.locker.ledger.balances u).locked ≤ w.locker.ledger.lockedSupply :=
    hinv.sums.supply ▸ locked_le_sum _ u
  -- the transfer of the locker's own tokens succeeds
  obtain ⟨t, ht⟩ := (w.tokens w.locker.config.stakingToken).exists_transfer h.self_ne hu.1
    (hle.trans h.custody.covered)
  obtain ⟨w', hw'⟩ : ∃ w', emergencyWithdraw w u = .ok w' := by
    unfold emergencyWithdraw
    dsimp only
    rw [require_of hsd, ok_bind, require_of hpos, ok_bind, AuraMath.to32, ucast_of hlen, ok_bind,
      usub_of hle, ok_bind, World.safeTransfer]
    dsimp only
    rw [ht, ok_bind]
    exact ⟨_, rfl⟩
  obtain ⟨-, -, -, s₁, rfl, hmv⟩ := emergencyWithdraw_eq_ok hw'
  obtain ⟨w₀, h₀, hs⟩ := h
  refine ⟨w', hw', ⟨w₀, h₀, .call hs hu hw'⟩, ?_, ?_, fun v hv => ?_, ?_⟩
  · have := hmv.balance_dst hu.2.symm w.locker.config.stakingToken
    rwa [if_pos rfl] at this
  · rw [hmv.locker]
    simp
  · rw [hmv.locker]
    simp [hv]
  · rw [hmv.locker]

/-- The epochs are contiguous weeks. -/
theorem Dated.date_eq {first n now i : ℕ} {s : Storage} {e : Epoch} (h : Dated first n now s)
    (hi : s.ledger.epochs[i]? = some e) : e.date = (first + i) * rewardsDuration := by
  rw [h.epochs, epochsFrom, List.getElem?_map, Option.map_eq_some_iff] at hi
  obtain ⟨k, hk, rfl⟩ := hi
  obtain ⟨hlt, rfl⟩ := List.getElem?_eq_some_iff.1 hk
  simp

/-- The ledger is exact and covered, and after a shutdown everybody can leave with all it
has locked, as long as the number of its lock records fits in `uint32`. As long as unlock
times do, the ledger is well dated and so do all numbers of lock records. -/
theorem ledger_exact {log : List Event} (h : Reachable log w) :
    (∀ u, (w.locker.ledger.balances u).nextUnlockIndex ≤ (w.locker.ledger.userLocks u).length ∧
      (w.locker.ledger.balances u).locked = lockSum ((w.locker.ledger.userLocks u).drop
        (w.locker.ledger.balances u).nextUnlockIndex) ∧
      ∀ l ∈ w.locker.ledger.userLocks u, 0 < l.amount) ∧
    w.locker.ledger.lockedSupply = ∑ u, (w.locker.ledger.balances u).locked ∧
    w.locker.ledger.lockedSupply ≤
      w.balance w.locker.config.stakingToken w.locker.config.self ∧
    (Fits w.now →
      (∀ u, (w.locker.ledger.userLocks u).length < 2 ^ 32 ∧
        (w.locker.ledger.userLocks u).Pairwise (fun l l' => l.unlockTime < l'.unlockTime) ∧
        ∀ l ∈ w.locker.ledger.userLocks u, rewardsDuration ∣ l.unlockTime) ∧
      ∃ first, ∀ i e, w.locker.ledger.epochs[i]? = some e →
        e.date = (first + i) * rewardsDuration) ∧
    (w.locker.config.isShutdown = true → ∀ u, IsCaller w u →
      (w.locker.ledger.userLocks u).length < 2 ^ 32 →
      0 < (w.locker.ledger.balances u).locked → ∃ w', emergencyWithdraw w u = .ok w' ∧
        Reachable (log ++ [⟨w.now, u, .emergencyWithdraw⟩]) w' ∧
        w'.balance w.locker.config.stakingToken u =
          w.balance w.locker.config.stakingToken u + (w.locker.ledger.balances u).locked ∧
        (w'.locker.ledger.balances u).locked = 0 ∧
        (∀ v, v ≠ u → w'.locker.ledger.balances v = w.locker.ledger.balances v) ∧
        w'.locker.rewards = w.locker.rewards) := by
  obtain ⟨first, hinv⟩ := h.ledgerInv
  refine ⟨fun u => ⟨hinv.sums.next_le u, hinv.sums.locked u, hinv.sums.pos u⟩, hinv.sums.supply,
    h.custody.covered, fun hfit => ?_,
    fun hsd u hu hlen hpos => emergencyWithdraw_exits h hlen hsd hu hpos⟩
  obtain ⟨n, hd⟩ := hinv.dated hfit
  refine ⟨fun u => ⟨hd.userLocks_length_lt hfit u, (hd.dated u).sorted, fun l hl => ?_⟩,
    ⟨first, fun i e => hd.date_eq⟩⟩
  obtain ⟨k, -, hk⟩ := (hd.dated u).grid l hl
  exact ⟨k + 17, by rw [hk, Nat.mul_comm]⟩

/-- The account 1 locks, the owner shuts the locker down, and the account 1 leaves. -/
theorem ledger_exact_run : ∃ w w' : World,
    w.locker.ledger.lockedSupply = ∑ u, (w.locker.ledger.balances u).locked ∧
      emergencyWithdraw w 1 = .ok w' ∧ w'.balance 200 1 = w.balance 200 1 + 5 := by
  let start := 20 * rewardsDuration
  let log : List Event := [⟨start, 1, .lock 1 5⟩, ⟨start, 101, .shutdown⟩]
  have h : Reachable log ((World.initial start).after log) :=
    ⟨_, World.initial_deployed (by decide), .after (by decide +kernel)⟩
  obtain ⟨-, hsum, -, hdated, hexit⟩ := ledger_exact h
  obtain ⟨w', hw', -, hpaid, -⟩ := hexit (by decide +kernel) 1 (by decide +kernel)
    ((hdated (by decide +kernel)).1 1).1 (by decide +kernel)
  have htoken : ((World.initial start).after log).locker.config.stakingToken = 200 := by
    decide +kernel
  have hamount : (((World.initial start).after log).locker.ledger.balances 1).locked = 5 := by
    decide +kernel
  rw [htoken, hamount] at hpaid
  exact ⟨_, w', hsum, hw', hpaid⟩

/-- An unlock time that does not fit in `uint32` is truncated and no multiple of a week. -/
theorem unlockTime_truncated : ¬∀ {log : List Event} {w : World}, Reachable log w →
    ∀ u, ∀ l ∈ w.locker.ledger.userLocks u, rewardsDuration ∣ l.unlockTime := by
  intro h
  let start := 7085 * rewardsDuration
  let log : List Event := [⟨start, 1, .lock 1 5⟩]
  have hrun : Reachable log ((World.initial start).after log) :=
    ⟨_, World.initial_deployed (by decide), .after (by decide +kernel)⟩
  have hlock : ⟨5, 322304⟩ ∈ ((World.initial start).after log).locker.ledger.userLocks 1 := by
    decide +kernel
  exact absurd (h hrun 1 _ hlock) (by decide)

end Aura.Locker
