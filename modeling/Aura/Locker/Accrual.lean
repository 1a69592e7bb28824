import Aura.Locker.Solvency

/-!
# AuraLocker : updateReward

The modifier `updateReward` stands in front of almost every call, so the locker is stuck
when it reverts. The only thing that can make it revert is a reward per token that does not
fit in `uint96`, and whether that can happen before the end of the current periods can be
read off the state (`updateReward_returns_iff`). The supply is only checked when rewards are
notified, and a stream over a supply that has fallen since can be too much
(`updateReward_overflow`).
-/

open Evm Function Finset

namespace Aura.Locker

open AuraMath

variable {now funds : ℕ} {s s' : Storage} {a token : Address}

/-! ## One round -/

/-- A round returns when the reward per token fits. -/
theorem Funded.updateRewardToken_eq (h : Funded now s token funds) (hnow : 0 < now)
    (hsup : ∑ u ∈ users, (s.ledger.balances u).locked ≤ s.ledger.lockedSupply)
    (hlt : (accrued s now token).index < 2 ^ 96) :
    updateRewardToken s now a token = .ok (Locker.accrue s now a token) := by
  have hap : _lastTimeRewardApplicable now (s.rewards.rewardData token).periodFinish < 2 ^ 32 :=
    (applicable_le_finish _ _).trans_lt h.finish_lt
  unfold updateRewardToken Locker.accrue
  rw [h.rewardPerToken_eq, ok_bind, to96, ucast_of hlt, ok_bind]
  dsimp only
  rw [to32, ucast_of hap, ok_bind, ← distribute]
  by_cases ha : a = 0
  · rw [if_neg (not_not.2 ha), if_pos ha]
  · -- the claim is computed again from the new index, at the same time
    have hf : Funded now (distribute s now token) token funds := by
      have := h.accrue (a := 0) hnow hsup hlt
      rwa [Locker.accrue, if_pos rfl] at this
    have hearned := hf.earned_eq hsup ha
    have hfits := hf.earned_lt hsup ha
    rw [accrued_distribute] at hearned hfits
    rw [if_pos ha, if_neg ha, to128, ucast_of (hlt.trans (by norm_num)), ok_bind, hearned, ok_bind,
      to128, ucast_of hfits, ok_bind]

/-- A round settles the account in its token, after what was streamed is distributed. -/
theorem accrued_accrue (s : Storage) (now : ℕ) (a token : Address) :
    accrued (accrue s now a token) now token =
      if a = 0 then accrued s now token else (accrued s now token).settle precision a := by
  have hz : streamed ((accrue s now a token).rewards.rewardData token) now = 0 := by
    rw [accrue_rewardData, streamed, Nat.sub_self, Nat.zero_mul, Nat.zero_mul]
  rw [accrued, hz, Nat.zero_div, Accumulator.advance_zero, accumulator_accrue]

/-- A round for another token does not matter. -/
theorem accrued_accrue_of_ne (s : Storage) (now : ℕ) (a : Address) {token other : Address}
    (hne : token ≠ other) : accrued (accrue s now a other) now token = accrued s now token := by
  obtain ⟨hd, hu⟩ := accrue_of_ne s now a hne
  have hledger := (accrue_accrued s now a other).ledger
  have hacc : accumulator (accrue s now a other) token = accumulator s token := by
    unfold accumulator
    simp only [hd, hu, hledger]
  rw [accrued, accrued, hacc, hd, hledger]

/-- The index of a token is the same before and after a round at the same time. -/
theorem accrued_accrue_index (s : Storage) (now : ℕ) (a token other : Address) :
    (accrued (accrue s now a other) now token).index = (accrued s now token).index := by
  by_cases hne : token = other
  · subst hne
    rw [accrued_accrue]
    split_ifs <;> rfl
  · rw [accrued_accrue_of_ne s now a hne]

/-- So is what anybody can claim. -/
theorem accrued_accrue_earned (s : Storage) (now : ℕ) (a token other u : Address) :
    (accrued (accrue s now a other) now token).earned precision u =
      (accrued s now token).earned precision u := by
  by_cases hne : token = other
  · subst hne
    rw [accrued_accrue]
    split_ifs
    · rfl
    · exact Accumulator.earned_settle precision a u
  · rw [accrued_accrue_of_ne s now a hne]

/-! ## The whole loop -/

/-- The index of a token is the same before and after the loop at the same time. -/
theorem updateReward_index (hx : updateReward s now a = .ok s') (token : Address) :
    (accrued s' now token).index = (accrued s now token).index :=
  foldlM_keeps (fun s₁ => (accrued s₁ now token).index = (accrued s now token).index)
    (fun other _ s₁ s₂ hs₁ h => by
      obtain ⟨rfl, -⟩ := updateRewardToken_eq_ok h
      rwa [accrued_accrue_index]) rfl hx

/-- What anybody can claim is the same before and after the loop at the same time. -/
theorem updateReward_earned (hx : updateReward s now a = .ok s') (token u : Address) :
    (accrued s' now token).earned precision u = (accrued s now token).earned precision u :=
  foldlM_keeps (fun s₁ => (accrued s₁ now token).earned precision u =
      (accrued s now token).earned precision u)
    (fun other _ s₁ s₂ hs₁ h => by
      obtain ⟨rfl, -⟩ := updateRewardToken_eq_ok h
      rwa [accrued_accrue_earned]) rfl hx

/-- When the loop returns, the reward per token fits for every token. -/
theorem accrued_index_lt (hx : updateReward s now a = .ok s') :
    ∀ token ∈ s.rewards.rewardTokens, (accrued s now token).index < 2 ^ 96 := by
  intro token hm
  have hlt := foldlM_each (P := fun token s => (accrued s now token).index < 2 ^ 96)
    (fun token s₁ s₂ h => by
      obtain ⟨rfl, hlt⟩ := updateRewardToken_eq_ok h
      rwa [accrued_accrue_index])
    (fun token other s₁ s₂ hlt h => by
      obtain ⟨rfl, -⟩ := updateRewardToken_eq_ok h
      rwa [accrued_accrue_index]) hx token hm
  rwa [← updateReward_index hx token]

/-- When the reward per token fits for every token, the loop returns. -/
theorem exists_foldlM_updateRewardToken (hnow : 0 < now) : ∀ (tokens : List Address) {s : Storage},
    ∑ u ∈ users, (s.ledger.balances u).locked ≤ s.ledger.lockedSupply →
    (∀ token ∈ tokens, ∃ funds, Funded now s token funds) →
    (∀ token ∈ tokens, (accrued s now token).index < 2 ^ 96) →
    ∃ s', tokens.foldlM (fun s token => updateRewardToken s now a token) s = .ok s'
  | [], s, _, _, _ => ⟨s, rfl⟩
  | token :: tokens, s, hsup, hf, hlt => by
    obtain ⟨funds, hfunded⟩ := hf token (by simp)
    have hx := hfunded.updateRewardToken_eq (a := a) hnow hsup (hlt token (by simp))
    rw [List.foldlM_cons, hx, ok_bind]
    refine exists_foldlM_updateRewardToken hnow tokens ?_ (fun other hm => ?_) fun other hm => ?_
    · rw [(accrue_accrued s now a token).ledger]
      exact hsup
    · obtain ⟨funds, hfunded⟩ := hf other (by simp [hm])
      exact ⟨funds, hfunded.accrue hnow hsup (hlt token (by simp))⟩
    · rw [accrued_accrue_index]
      exact hlt other (by simp [hm])

/-! ## When it returns -/

/-- The reward per token at the end of the period fits in `uint96`. -/
def Fitting (s : Storage) (token : Address) : Prop :=
  let r := s.rewards.rewardData token
  s.ledger.lockedSupply = 0 ∨
    r.rewardPerTokenStored * s.ledger.lockedSupply +
        (r.periodFinish - r.lastUpdateTime) * r.rewardRate * 10 ^ 18 <
      2 ^ 96 * s.ledger.lockedSupply

/-- `Fitting`, with the division that the code makes. -/
theorem fitting_iff (h : (s.rewards.rewardData token).rewardPerTokenStored < 2 ^ 96) :
    Fitting s token ↔ (s.rewards.rewardData token).rewardPerTokenStored +
      ((s.rewards.rewardData token).periodFinish - (s.rewards.rewardData token).lastUpdateTime) *
        (s.rewards.rewardData token).rewardRate * precision / s.ledger.lockedSupply < 2 ^ 96 := by
  unfold Fitting
  dsimp only
  rw [← precision]
  set r := s.rewards.rewardData token
  set x := (r.periodFinish - r.lastUpdateTime) * r.rewardRate * precision
  rcases Nat.eq_zero_or_pos s.ledger.lockedSupply with hz | hpos
  · rw [hz, Nat.div_zero, Nat.add_zero]
    exact iff_of_true (.inl rfl) h
  · have hdiv : x / s.ledger.lockedSupply < 2 ^ 96 - r.rewardPerTokenStored ↔
        x < (2 ^ 96 - r.rewardPerTokenStored) * s.ledger.lockedSupply :=
      Nat.div_lt_iff_lt_mul hpos
    have hmul : (2 ^ 96 - r.rewardPerTokenStored) * s.ledger.lockedSupply +
        r.rewardPerTokenStored * s.ledger.lockedSupply = 2 ^ 96 * s.ledger.lockedSupply := by
      rw [← Nat.add_mul, Nat.sub_add_cancel h.le]
    constructor
    · rintro (hz | hlt)
      · exact absurd hz hpos.ne'
      · have := hdiv.2 (by omega)
        omega
    · intro hlt
      have := hdiv.1 (by omega)
      exact .inr (by omega)

/-- Until the end of the period the index grows towards its value there. -/
theorem accrued_index_le (s : Storage) (now : ℕ) (token : Address) :
    (accrued s now token).index ≤ (s.rewards.rewardData token).rewardPerTokenStored +
      ((s.rewards.rewardData token).periodFinish - (s.rewards.rewardData token).lastUpdateTime) *
        (s.rewards.rewardData token).rewardRate * precision / s.ledger.lockedSupply := by
  refine Nat.add_le_add_left (Nat.div_le_div_right (Nat.mul_le_mul_right _
    (Nat.mul_le_mul_right _ (Nat.sub_le_sub_right ?_ _)))) _
  exact applicable_le_finish _ _

/-- At the end of the period it reaches that value. -/
theorem accrued_index_eq (h : (s.rewards.rewardData token).periodFinish ≤ now) :
    (accrued s now token).index = (s.rewards.rewardData token).rewardPerTokenStored +
      ((s.rewards.rewardData token).periodFinish - (s.rewards.rewardData token).lastUpdateTime) *
        (s.rewards.rewardData token).rewardRate * precision / s.ledger.lockedSupply := by
  have hap : _lastTimeRewardApplicable now (s.rewards.rewardData token).periodFinish =
      (s.rewards.rewardData token).periodFinish :=
    (applicable_le_finish _ _).antisymm (le_applicable h le_rfl)
  show _ + streamed _ now / _ = _
  rw [streamed, hap]
  rfl

/-- In a reachable world, `updateReward` returns at every later time that fits in 32 bits
exactly if every reward token is `Fitting`. -/
theorem updateReward_returns_iff {log : List Event} {w : World} (h : Reachable log w)
    (hnow : w.now < 2 ^ 32) :
    (∀ account t, w.now ≤ t → t < 2 ^ 32 → ∃ s, updateReward w.locker t account = .ok s) ↔
      ∀ token ∈ w.locker.rewards.rewardTokens, Fitting w.locker token := by
  obtain ⟨first, hinv⟩ := h.ledgerInv
  have hsup := hinv.sums.users_le
  have hfunded : ∀ token ∈ w.locker.rewards.rewardTokens, ∀ t, w.now ≤ t →
      Funded t w.locker token (w.balance token w.locker.config.self) := fun token hm t ht =>
    (h.solvent.funded token fun he => h.solvent.notReward (he ▸ hm)).time ht
  constructor
  · intro hall token hm
    have hf := hfunded token hm w.now le_rfl
    set t := max w.now (w.locker.rewards.rewardData token).periodFinish with ht
    obtain ⟨s, hs⟩ := hall 0 t (le_max_left _ _) (max_lt hnow hf.finish_lt)
    have hlt := accrued_index_lt hs token hm
    rw [accrued_index_eq (le_max_right _ _)] at hlt
    exact (fitting_iff hf.index_lt).2 hlt
  · intro hall account t ht _
    refine exists_foldlM_updateRewardToken (h.solvent.now_pos.trans_le ht) _ hsup
      (fun token hm => ⟨_, hfunded token hm t ht⟩) fun token hm => ?_
    exact (accrued_index_le _ _ _).trans_lt
      ((fitting_iff (hfunded token hm t ht).index_lt).1 (hall token hm))

/-- A token is streamed over a supply of 10^20, and everybody can go on calling. -/
theorem updateReward_returns_run : ∃ w : World, w.locker.rewards.rewardTokens = [300] ∧
    ∀ account t, w.now ≤ t → t < 2 ^ 32 → ∃ s, updateReward w.locker t account = .ok s := by
  let start := 20 * rewardsDuration
  let log : List Event := [⟨start, 1, .lock 1 (10 ^ 20)⟩, ⟨start, 101, .addReward 300 1⟩,
    ⟨start, 1, .queueNewRewards 300 (10 ^ 24)⟩]
  let w := (World.initial start).after log
  have h : Reachable log w := ⟨_, World.initial_deployed (by decide), .after (by decide +kernel)⟩
  have htokens : w.locker.rewards.rewardTokens = [300] := by decide +kernel
  refine ⟨w, htokens, (updateReward_returns_iff h (by decide +kernel)).2 fun token hm => ?_⟩
  rw [htokens, List.mem_singleton] at hm
  subst hm
  exact .inr (by decide +kernel)

/-- In week 36 a token is notified over a supply of 10^20 and a wei. In week 37 all but the
wei leaves, and a second later the reward per token no longer fits in `uint96`. -/
theorem updateReward_overflow : ¬∀ {log : List Event} {w : World}, Reachable log w →
    ∀ account t, w.now ≤ t → t < 2 ^ 32 → ∃ s, updateReward w.locker t account = .ok s := by
  intro h
  let start := 20 * rewardsDuration
  let log : List Event := [⟨start, 1, .lock 1 (10 ^ 20)⟩, ⟨start, 101, .addReward 300 1⟩,
    ⟨36 * rewardsDuration, 1, .lock 2 1⟩,
    ⟨36 * rewardsDuration + 1, 1, .queueNewRewards 300 (10 ^ 24)⟩,
    ⟨37 * rewardsDuration, 1, .processExpiredLocks false⟩]
  let w := (World.initial start).after log
  have hrun : Reachable log w :=
    ⟨_, World.initial_deployed (by decide), .after (by decide +kernel)⟩
  obtain ⟨s, hs⟩ := h hrun 2 (37 * rewardsDuration + 1) (by decide +kernel) (by decide)
  have hrevert : (updateReward w.locker (37 * rewardsDuration + 1) 2).returns = false := by
    decide +kernel
  rw [hs] at hrevert
  cases hrevert

end Aura.Locker
