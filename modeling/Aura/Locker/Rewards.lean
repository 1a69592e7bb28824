import Aura.Accumulator
import Aura.Locker.Ledger

/-!
# AuraLocker : rewards

For each reward token the locker is an `Accumulator` with the locked balances as weights.
A round of `updateReward` distributes what was streamed since the last update and settles
the account (`accrue`). `Funded` says that a token's accumulator, its queue and the rest of
its stream are covered by given funds, and is kept by every change of the storage. The zero
account is left out : `updateReward` does not settle it.
-/

open Evm Function Finset

namespace Aura.Locker

open AuraMath

/-- The precision of `rewardPerTokenStored`. -/
def precision : ℕ := 10 ^ 18

theorem precision_pos : 0 < precision := by
  decide

/-- The accumulator of a reward token. -/
def accumulator (s : Storage) (token : Address) : Accumulator Address where
  index := (s.rewards.rewardData token).rewardPerTokenStored
  weight u := (s.ledger.balances u).locked
  paid u := (s.rewards.userData u token).rewardPerTokenPaid
  credit u := (s.rewards.userData u token).rewards

/-- The accounts that rewards are owed to. -/
def users : Finset Address :=
  univ.erase 0

theorem mem_users {u : Address} : u ∈ users ↔ u ≠ 0 := by
  simp [users]

variable {now : ℕ} {s s' : Storage} {a token : Address}

/-! ## Accrual -/

/-- What was streamed since the last update, in fractions of `precision`. -/
def streamed (r : RewardData) (now : ℕ) : ℕ :=
  (_lastTimeRewardApplicable now r.periodFinish - r.lastUpdateTime) * r.rewardRate * precision

/-- The index after what was streamed is distributed. -/
def accrued (s : Storage) (now : ℕ) (token : Address) : Accumulator Address :=
  (accumulator s token).advance
    (streamed (s.rewards.rewardData token) now / s.ledger.lockedSupply)

/-- The storage after what was streamed of a token is distributed. -/
def distribute (s : Storage) (now : ℕ) (token : Address) : Storage :=
  setRewardData s token
    { s.rewards.rewardData token with
      rewardPerTokenStored := (accrued s now token).index
      lastUpdateTime := _lastTimeRewardApplicable now (s.rewards.rewardData token).periodFinish }

/-- The storage after a round of `updateReward`. -/
def accrue (s : Storage) (now : ℕ) (a token : Address) : Storage :=
  if a = 0 then distribute s now token
  else setUserData (distribute s now token) a token
    ⟨(accrued s now token).index, (accrued s now token).earned precision a⟩

theorem applicable_le_now (now finish : ℕ) : _lastTimeRewardApplicable now finish ≤ now := by
  rw [_lastTimeRewardApplicable, min_eq]
  exact Nat.min_le_left _ _

theorem applicable_le_finish (now finish : ℕ) : _lastTimeRewardApplicable now finish ≤ finish := by
  rw [_lastTimeRewardApplicable, min_eq]
  exact Nat.min_le_right _ _

theorem le_applicable {n now finish : ℕ} (h₁ : n ≤ now) (h₂ : n ≤ finish) :
    n ≤ _lastTimeRewardApplicable now finish := by
  rw [_lastTimeRewardApplicable, min_eq]
  exact Nat.le_min.2 ⟨h₁, h₂⟩

/-- `_rewardPerToken` returns the index after what was streamed is distributed. -/
theorem rewardPerToken_eq_ok {x : ℕ} (h : _rewardPerToken s now token = .ok x) :
    x = (accrued s now token).index := by
  unfold _rewardPerToken at h
  dsimp only at h
  split_ifs at h with hz
  · cases h
    show _ = _ + _ / s.ledger.lockedSupply
    rw [hz, Nat.div_zero, Nat.add_zero]
    rfl
  · obtain ⟨e, he, h⟩ := bind_eq_ok.1 h
    obtain ⟨-, rfl⟩ := usub_eq_ok.1 he
    obtain ⟨x₁, h₁, h⟩ := bind_eq_ok.1 h
    obtain ⟨-, rfl⟩ := umul_eq_ok.1 h₁
    obtain ⟨x₂, h₂, h⟩ := bind_eq_ok.1 h
    obtain ⟨-, rfl⟩ := umul_eq_ok.1 h₂
    obtain ⟨x₃, h₃, h⟩ := bind_eq_ok.1 h
    obtain ⟨-, rfl⟩ := udiv_eq_ok.1 h₃
    obtain ⟨-, rfl⟩ := uadd_eq_ok.1 h
    rfl

/-- `_earned` returns the claim after what was streamed is distributed. -/
theorem earned_eq_ok {x : ℕ}
    (h : _earned s now a token (s.ledger.balances a).locked = .ok x) :
    x = (accrued s now token).earned precision a := by
  unfold _earned at h
  obtain ⟨rpt, hrpt, h⟩ := bind_eq_ok.1 h
  obtain rfl := rewardPerToken_eq_ok hrpt
  obtain ⟨d, hd, h⟩ := bind_eq_ok.1 h
  obtain ⟨-, rfl⟩ := usub_eq_ok.1 hd
  obtain ⟨x₁, h₁, h⟩ := bind_eq_ok.1 h
  obtain ⟨-, rfl⟩ := umul_eq_ok.1 h₁
  obtain ⟨-, rfl⟩ := uadd_eq_ok.1 h
  rfl

theorem accumulator_distribute (s : Storage) (now : ℕ) (token : Address) :
    accumulator (distribute s now token) token = accrued s now token := by
  simp [accumulator, distribute, setRewardData, accrued, Accumulator.advance]

/-- Distributing again at the same time changes nothing. -/
theorem accrued_distribute (s : Storage) (now : ℕ) (token : Address) :
    accrued (distribute s now token) now token = accrued s now token := by
  have hz : streamed ((distribute s now token).rewards.rewardData token) now = 0 := by
    simp [streamed, distribute, setRewardData]
  rw [accrued, hz, Nat.zero_div, accumulator_distribute, Accumulator.advance_zero]

/-- What a successful round of `updateReward` did. -/
theorem updateRewardToken_eq_ok (h : updateRewardToken s now a token = .ok s') :
    s' = accrue s now a token ∧ (accrued s now token).index < 2 ^ 96 := by
  unfold updateRewardToken at h
  obtain ⟨x, hx, h⟩ := bind_eq_ok.1 h
  obtain rfl := rewardPerToken_eq_ok hx
  obtain ⟨y, hy, h⟩ := bind_eq_ok.1 h
  obtain ⟨hlt, rfl⟩ := ucast_eq_ok.1 hy
  obtain ⟨z, hz, h⟩ := bind_eq_ok.1 h
  obtain ⟨-, rfl⟩ := ucast_eq_ok.1 hz
  refine ⟨?_, hlt⟩
  dsimp only at h
  rw [← distribute] at h
  unfold accrue
  by_cases ha : a = 0
  · rw [if_neg (not_not.2 ha)] at h
    rw [if_pos ha]
    exact (Except.ok.inj h).symm
  · rw [if_pos ha] at h
    rw [if_neg ha]
    obtain ⟨p, hp, h⟩ := bind_eq_ok.1 h
    obtain ⟨-, rfl⟩ := ucast_eq_ok.1 hp
    obtain ⟨e, he, h⟩ := bind_eq_ok.1 h
    obtain rfl := earned_eq_ok he
    obtain ⟨q, hq, h⟩ := bind_eq_ok.1 h
    obtain ⟨-, rfl⟩ := ucast_eq_ok.1 hq
    rw [accrued_distribute] at h
    exact (Except.ok.inj h).symm

/-! ## The accumulator under changes of the storage -/

/-- A round for a token leaves the other tokens alone. -/
theorem accrue_of_ne (s : Storage) (now : ℕ) (a : Address) {other : Address} (hne : other ≠ token) :
    (accrue s now a token).rewards.rewardData other = s.rewards.rewardData other ∧
      ∀ u, (accrue s now a token).rewards.userData u other = s.rewards.userData u other := by
  unfold accrue distribute setUserData setRewardData
  split_ifs
  · simp [hne]
  · refine ⟨by simp [hne], fun u => ?_⟩
    by_cases hu : u = a
    · subst hu
      simp [hne]
    · simp [hu]

/-- What a round for a token does to the data of the token. -/
theorem accrue_rewardData (s : Storage) (now : ℕ) (a token : Address) :
    (accrue s now a token).rewards.rewardData token =
      { s.rewards.rewardData token with
        rewardPerTokenStored := (accrued s now token).index
        lastUpdateTime :=
          _lastTimeRewardApplicable now (s.rewards.rewardData token).periodFinish } := by
  unfold accrue distribute setUserData setRewardData
  split_ifs <;> simp

/-- What a round for a token does to the data of the users. -/
theorem accrue_userData (s : Storage) (now : ℕ) (a token u : Address) :
    (accrue s now a token).rewards.userData u token = if a ≠ 0 ∧ u = a then
      ⟨(accrued s now token).index, (accrued s now token).earned precision a⟩
      else s.rewards.userData u token := by
  unfold accrue distribute setUserData setRewardData
  by_cases ha : a = 0
  · simp [ha]
  · by_cases hu : u = a
    · subst hu
      simp [ha]
    · simp [ha, hu]

/-- A round touches nothing but the data of tokens and users. -/
theorem accrue_accrued (s : Storage) (now : ℕ) (a token : Address) :
    Accrued s (accrue s now a token) := by
  unfold accrue
  split_ifs <;> exact ⟨rfl, rfl, rfl, rfl, rfl, rfl⟩

/-- A round for a token distributes what was streamed and settles the account. -/
theorem accumulator_accrue (s : Storage) (now : ℕ) (a token : Address) :
    accumulator (accrue s now a token) token =
      if a = 0 then accrued s now token else (accrued s now token).settle precision a := by
  unfold accrue
  split_ifs with ha
  · exact accumulator_distribute s now token
  · rw [← accumulator_distribute]
    refine Accumulator.ext rfl rfl (funext fun u => ?_) (funext fun u => ?_) <;>
    · by_cases hu : u = a
      · subst hu
        simp [accumulator, setUserData, Accumulator.settle]
      · simp [accumulator, setUserData, Accumulator.settle, hu]

/-- Another balance of `a` is another weight. -/
theorem accumulator_reweigh {b : Balances} (hr : s'.rewards = s.rewards)
    (hb : s'.ledger.balances = update s.ledger.balances a b) (token : Address) :
    accumulator s' token = (accumulator s token).reweigh a b.locked := by
  unfold accumulator Accumulator.reweigh
  rw [hr, hb]
  congr 1
  funext u
  exact apply_update (fun _ => Balances.locked) s.ledger.balances a b u

/-- Clearing the rewards of `a` is a payment. -/
theorem accumulator_clearRewards (s : Storage) (a token : Address) :
    accumulator (clearRewards s a token) token = (accumulator s token).pay a := by
  refine Accumulator.ext rfl rfl (funext fun u => ?_) (funext fun u => ?_) <;>
  · by_cases hu : u = a
    · subst hu
      simp [accumulator, clearRewards, setUserData, Accumulator.pay]
    · simp [accumulator, clearRewards, setUserData, Accumulator.pay, hu]

/-! ## Funds -/

/-- What the locker owes or is yet to stream of a token, in fractions of `precision`. -/
def obligations (s : Storage) (token : Address) : ℕ :=
  let r := s.rewards.rewardData token
  (accumulator s token).owed precision users +
    (s.rewards.queuedRewards token + r.rewardRate * (r.periodFinish - r.lastUpdateTime)) *
      precision

/-- The data of a token is in order and `funds` cover its obligations. -/
structure Funded (now : ℕ) (s : Storage) (token : Address) (funds : ℕ) : Prop where
  updated_le : (s.rewards.rewardData token).lastUpdateTime ≤ now
  updated_le_finish : (s.rewards.rewardData token).lastUpdateTime ≤
    (s.rewards.rewardData token).periodFinish
  finish_lt : (s.rewards.rewardData token).periodFinish < 2 ^ 32
  rate_lt : (s.rewards.rewardData token).rewardRate < 10 ^ 20
  index_lt : (s.rewards.rewardData token).rewardPerTokenStored < 2 ^ 96
  paid_le : ∀ u, (s.rewards.userData u token).rewardPerTokenPaid ≤
    (s.rewards.rewardData token).rewardPerTokenStored
  zero : s.rewards.userData 0 token = ⟨0, 0⟩
  /-- Nothing has happened yet with a token that was never updated. -/
  idle : (s.rewards.rewardData token).lastUpdateTime = 0 →
    s.rewards.rewardData token = ⟨0, 0, 0, 0⟩ ∧ (∀ u, s.rewards.userData u token = ⟨0, 0⟩) ∧
      s.rewards.queuedRewards token = 0
  /-- No more is owed than the highest rate has streamed since time zero. -/
  emitted : (accumulator s token).owed precision users ≤
    (s.rewards.rewardData token).lastUpdateTime * (10 ^ 20 * precision)
  covered : obligations s token ≤ funds * precision

variable {funds : ℕ}

theorem Funded.time {now' : ℕ} (h : Funded now s token funds) (hn : now ≤ now') :
    Funded now' s token funds :=
  { h with updated_le := h.updated_le.trans hn }

theorem Funded.mono {funds' : ℕ} (h : Funded now s token funds) (hf : funds ≤ funds') :
    Funded now s token funds' :=
  { h with covered := h.covered.trans (Nat.mul_le_mul_right _ hf) }

/-- `Funded` survives when the data of the token stays and no more is owed. -/
theorem Funded.of_owed_le (h : Funded now s token funds)
    (hd : s'.rewards.rewardData token = s.rewards.rewardData token)
    (hu : ∀ u, s'.rewards.userData u token = s.rewards.userData u token)
    (hq : s'.rewards.queuedRewards token = s.rewards.queuedRewards token)
    (ho : (accumulator s' token).owed precision users ≤
      (accumulator s token).owed precision users) : Funded now s' token funds := by
  refine ⟨?_, ?_, ?_, ?_, ?_, ?_, ?_, ?_, ?_, ?_⟩
  · rw [hd]
    exact h.updated_le
  · rw [hd]
    exact h.updated_le_finish
  · rw [hd]
    exact h.finish_lt
  · rw [hd]
    exact h.rate_lt
  · rw [hd]
    exact h.index_lt
  · simp only [hd, hu]
    exact h.paid_le
  · rw [hu]
    exact h.zero
  · simp only [hd, hu, hq]
    exact h.idle
  · rw [hd]
    exact ho.trans h.emitted
  · refine le_trans ?_ h.covered
    unfold obligations
    rw [hd, hq]
    exact Nat.add_le_add_right ho _

/-- `Funded` speaks of the data of its token and of the balances. -/
theorem Funded.congr (h : Funded now s token funds)
    (hd : s'.rewards.rewardData token = s.rewards.rewardData token)
    (hu : ∀ u, s'.rewards.userData u token = s.rewards.userData u token)
    (hq : s'.rewards.queuedRewards token = s.rewards.queuedRewards token)
    (hb : s'.ledger.balances = s.ledger.balances) : Funded now s' token funds := by
  refine h.of_owed_le hd hu hq (le_of_eq ?_)
  have hacc : accumulator s' token = accumulator s token := by
    unfold accumulator
    simp only [hd, hu, hb]
  rw [hacc]

/-- What is streamed until `now` leaves the stream. -/
theorem streamed_add (r : RewardData) (now : ℕ) (h₁ : r.lastUpdateTime ≤ now)
    (h₂ : r.lastUpdateTime ≤ r.periodFinish) :
    streamed r now +
        r.rewardRate * (r.periodFinish - _lastTimeRewardApplicable now r.periodFinish) * precision =
      r.rewardRate * (r.periodFinish - r.lastUpdateTime) * precision := by
  have h₃ := le_applicable h₁ h₂
  have h₄ := applicable_le_finish now r.periodFinish
  obtain ⟨x, hx⟩ := Nat.exists_eq_add_of_le h₃
  obtain ⟨y, hy⟩ := Nat.exists_eq_add_of_le h₄
  have hxy : r.periodFinish - r.lastUpdateTime = x + y := by omega
  have hx' : _lastTimeRewardApplicable now r.periodFinish - r.lastUpdateTime = x := by omega
  have hy' : r.periodFinish - _lastTimeRewardApplicable now r.periodFinish = y := by omega
  rw [streamed, hxy, hx', hy']
  ring

/-- What is streamed is bounded by the highest rate. -/
theorem streamed_le (r : RewardData) (now : ℕ) (hr : r.rewardRate < 10 ^ 20) :
    streamed r now ≤ (_lastTimeRewardApplicable now r.periodFinish - r.lastUpdateTime) *
      (10 ^ 20 * precision) := by
  rw [streamed, Nat.mul_assoc]
  exact Nat.mul_le_mul_left _ (Nat.mul_le_mul_right _ hr.le)

/-- The claims of all users after what was streamed is distributed. -/
theorem owed_accrued_le (hsup : ∑ u ∈ users, (s.ledger.balances u).locked ≤ s.ledger.lockedSupply) :
    (accrued s now token).owed precision users ≤
      (accumulator s token).owed precision users + streamed (s.rewards.rewardData token) now :=
  Accumulator.owed_distribute_le precision hsup

/-- Nor is more owed than the highest rate has streamed by the time of the update. -/
theorem Funded.emitted_accrued (h : Funded now s token funds)
    (hsup : ∑ u ∈ users, (s.ledger.balances u).locked ≤ s.ledger.lockedSupply) :
    (accrued s now token).owed precision users ≤
      _lastTimeRewardApplicable now (s.rewards.rewardData token).periodFinish *
        (10 ^ 20 * precision) := by
  have hstream := streamed_le (s.rewards.rewardData token) now h.rate_lt
  have hle := le_applicable h.updated_le h.updated_le_finish
  calc (accrued s now token).owed precision users
      ≤ (s.rewards.rewardData token).lastUpdateTime * (10 ^ 20 * precision) +
          (_lastTimeRewardApplicable now (s.rewards.rewardData token).periodFinish -
            (s.rewards.rewardData token).lastUpdateTime) * (10 ^ 20 * precision) :=
        (owed_accrued_le hsup).trans (Nat.add_le_add h.emitted hstream)
    _ = _ := by rw [← Nat.add_mul, Nat.add_sub_cancel' hle]

/-- At a positive time only a token without a period is not updated, and nothing of it has
accrued. -/
theorem Funded.idle_accrued (h : Funded now s token funds) (hnow : 0 < now)
    (hz : _lastTimeRewardApplicable now (s.rewards.rewardData token).periodFinish = 0) :
    (s.rewards.rewardData token = ⟨0, 0, 0, 0⟩ ∧ (∀ u, s.rewards.userData u token = ⟨0, 0⟩) ∧
      s.rewards.queuedRewards token = 0) ∧
    (accrued s now token).index = 0 ∧ ∀ u, (accrued s now token).earned precision u = 0 := by
  have hpf : (s.rewards.rewardData token).periodFinish = 0 := by
    by_contra hne
    have := le_applicable hnow (Nat.pos_of_ne_zero hne)
    omega
  have hidle := h.idle (Nat.eq_zero_of_le_zero (h.updated_le_finish.trans hpf.le))
  have hr0 := hidle.1
  have hu0 := hidle.2.1
  have hi0 : (accrued s now token).index = 0 := by
    show (s.rewards.rewardData token).rewardPerTokenStored +
      streamed (s.rewards.rewardData token) now / s.ledger.lockedSupply = 0
    rw [hr0]
    simp [streamed]
  refine ⟨hidle, hi0, fun u => ?_⟩
  have hc0 : (accumulator s token).credit u = 0 := by
    show (s.rewards.userData u token).rewards = 0
    rw [hu0]
  rw [Accumulator.earned, Accumulator.pending, hi0, Nat.zero_sub, Nat.mul_zero, Nat.zero_div,
    Nat.zero_add]
  exact hc0

/-- A round of `updateReward` keeps every token funded. -/
theorem Funded.accrue {other : Address} (h : Funded now s token funds) (hnow : 0 < now)
    (hsup : ∑ u ∈ users, (s.ledger.balances u).locked ≤ s.ledger.lockedSupply)
    (hlt : (accrued s now other).index < 2 ^ 96) :
    Funded now (Locker.accrue s now a other) token funds := by
  have hacc := accrue_accrued s now a other
  by_cases hne : token = other
  swap
  · obtain ⟨hd, hu⟩ := accrue_of_ne s now a hne
    exact h.congr hd hu (by rw [hacc.queuedRewards]) (by rw [hacc.ledger])
  subst hne
  have hd := accrue_rewardData s now a token
  have hu := accrue_userData s now a token
  have hq : (Locker.accrue s now a token).rewards.queuedRewards token =
      s.rewards.queuedRewards token := by rw [hacc.queuedRewards]
  have hsettle : (accumulator (Locker.accrue s now a token) token).owed precision users ≤
      (accrued s now token).owed precision users := by
    rw [accumulator_accrue]
    split_ifs
    · exact le_rfl
    · exact Accumulator.owed_settle_le precision a
  have howed := hsettle.trans (owed_accrued_le hsup)
  have hemit := hsettle.trans (h.emitted_accrued hsup)
  set r := s.rewards.rewardData token with hr
  have hindex : (accrued s now token).index =
    r.rewardPerTokenStored + streamed r now / s.ledger.lockedSupply := rfl
  have hfin := applicable_le_finish now r.periodFinish
  refine ⟨?_, ?_, ?_, ?_, ?_, fun u => ?_, ?_, fun hz => ?_, ?_, ?_⟩
  · rw [hd]
    exact applicable_le_now now _
  · rw [hd]
    exact hfin
  · rw [hd]
    exact h.finish_lt
  · rw [hd]
    exact h.rate_lt
  · rw [hd]
    exact hlt
  · rw [hd, hu]
    split_ifs
    · exact le_rfl
    · exact (h.paid_le u).trans (hindex ▸ Nat.le_add_right _ _)
  · rw [hu, if_neg fun hc => hc.1 hc.2.symm]
    exact h.zero
  · rw [hd] at hz
    have hz : _lastTimeRewardApplicable now r.periodFinish = 0 := hz
    obtain ⟨⟨hr0, hu0, hq0⟩, hi0, he0⟩ := h.idle_accrued hnow hz
    refine ⟨?_, fun u => ?_, hq.trans hq0⟩
    · rw [hd, hi0, hz, hr, hr0]
    · rw [hu, hi0, he0, hu0, ite_self]
  · rw [hd]
    exact hemit
  · have hstream := streamed_add r now h.updated_le h.updated_le_finish
    refine le_trans ?_ h.covered
    unfold obligations
    rw [hd, hq, ← hr]
    dsimp only
    rw [Nat.add_mul, Nat.add_mul, ← hstream]
    omega

/-- `updateReward` keeps every token funded. -/
theorem Funded.updateReward (h : Funded now s token funds) (hnow : 0 < now)
    (hsup : ∑ u ∈ users, (s.ledger.balances u).locked ≤ s.ledger.lockedSupply)
    (hx : Locker.updateReward s now a = .ok s') : Funded now s' token funds := by
  refine (foldlM_keeps (fun s₁ => Funded now s₁ token funds ∧ s₁.ledger = s.ledger)
    (fun other _ s₁ s₂ hs₁ hs₂ => ?_) ⟨h, rfl⟩ hx).1
  obtain ⟨rfl, hlt⟩ := updateRewardToken_eq_ok hs₂
  exact ⟨hs₁.1.accrue hnow (by rw [hs₁.2]; exact hsup) hlt,
    (accrue_accrued s₁ now a other).ledger.trans hs₁.2⟩

/-- The user `a` is paid up to the index of the token. -/
def Settled (s : Storage) (a token : Address) : Prop :=
  (s.rewards.rewardData token).rewardPerTokenStored ≤
    (s.rewards.userData a token).rewardPerTokenPaid

/-- `updateReward` settles the account in every token. -/
theorem updateReward_settled (ha : a ≠ 0) (hx : Locker.updateReward s now a = .ok s') :
    ∀ token ∈ s.rewards.rewardTokens, Settled s' a token := by
  refine foldlM_each (P := fun token s => Settled s a token) (fun token s₁ s₂ h => ?_)
    (fun token other s₁ s₂ hs h => ?_) hx
  · obtain ⟨rfl, -⟩ := updateRewardToken_eq_ok h
    rw [Settled, accrue_rewardData, accrue_userData, if_pos ⟨ha, rfl⟩]
  · obtain ⟨rfl, -⟩ := updateRewardToken_eq_ok h
    by_cases hne : token = other
    · subst hne
      rw [Settled, accrue_rewardData, accrue_userData, if_pos ⟨ha, rfl⟩]
    · obtain ⟨hd, hu⟩ := accrue_of_ne s₁ now a hne
      rw [Settled, hd, hu]
      exact hs

/-- A settled account, or the zero account, can lock. -/
theorem Funded.lock {n : ℕ} (h : Funded now s token funds) (hset : a = 0 ∨ Settled s a token)
    (hl : LockDone s s' now a n) : Funded now s' token funds := by
  obtain ⟨_, -, -, -, hb, -⟩ := hl.ledger_eq
  refine h.of_owed_le (by rw [hl.rewards]) (by rw [hl.rewards]; exact fun _ => rfl)
    (by rw [hl.rewards]) (le_of_eq ?_)
  rw [accumulator_reweigh hl.rewards hb]
  rcases hset with rfl | hset
  · exact Accumulator.owed_reweigh_of_notMem _ (fun hc => mem_users.1 hc rfl) _
  · exact Accumulator.owed_reweigh (a := accumulator s token) _ hset _

/-- A balance can always go down. -/
theorem Funded.reduce {b : Balances} (h : Funded now s token funds) (hr : s'.rewards = s.rewards)
    (hb : s'.ledger.balances = update s.ledger.balances a b)
    (hle : b.locked ≤ (s.ledger.balances a).locked) : Funded now s' token funds := by
  refine h.of_owed_le (by rw [hr]) (by rw [hr]; exact fun _ => rfl) (by rw [hr]) ?_
  rw [accumulator_reweigh hr hb]
  exact Accumulator.owed_reweigh_le _ hle

/-! ## Payments -/

/-- A payment in one token leaves the others alone. -/
theorem Funded.clear_of_ne {other : Address} (h : Funded now s token funds) (hne : token ≠ other) :
    Funded now (clearRewards s a other) token funds := by
  refine h.congr rfl (fun u => ?_) rfl rfl
  by_cases hu : u = a
  · subst hu
    simp [clearRewards, setUserData, hne]
  · simp [clearRewards, setUserData, hu]

/-- The rewards of an account are there and can be paid. -/
theorem Funded.clear (h : Funded now s token (funds + (s.rewards.userData a token).rewards)) :
    Funded now (clearRewards s a token) token funds := by
  by_cases ha : a = 0
  · subst ha
    rw [h.zero] at h
    refine Funded.congr (s := s) h rfl (fun u => ?_) rfl rfl
    by_cases hu : u = 0
    · subst hu
      simp [clearRewards, setUserData, h.zero]
    · simp [clearRewards, setUserData, hu]
  have hpay := Accumulator.owed_pay (a := accumulator s token) (u := a) precision (mem_users.2 ha)
  have hu : ∀ u, (clearRewards s a token).rewards.userData u token =
      if u = a then { s.rewards.userData a token with rewards := 0 }
      else s.rewards.userData u token := by
    intro u
    by_cases hu : u = a
    · subst hu
      simp [clearRewards, setUserData]
    · simp [clearRewards, setUserData, hu]
  refine ⟨h.updated_le, h.updated_le_finish, h.finish_lt, h.rate_lt, h.index_lt, fun u => ?_, ?_,
    fun hz => ⟨(h.idle hz).1, fun u => ?_, (h.idle hz).2.2⟩, ?_, ?_⟩
  · rw [hu]
    split_ifs with he
    · exact h.paid_le a
    · exact h.paid_le u
  · rw [hu, if_neg (Ne.symm ha)]
    exact h.zero
  · rw [hu, (h.idle hz).2.1, (h.idle hz).2.1]
    exact ite_self _
  · rw [accumulator_clearRewards]
    exact (Nat.le_of_add_right_le hpay.le).trans h.emitted
  · have hcov := h.covered
    unfold obligations at hcov ⊢
    rw [accumulator_clearRewards]
    rw [← hpay, Nat.add_mul funds] at hcov
    have hcredit : (accumulator s token).credit a = (s.rewards.userData a token).rewards := rfl
    rw [hcredit] at hcov
    change (accumulator s token |>.pay a).owed precision users +
      (s.rewards.queuedRewards token + (s.rewards.rewardData token).rewardRate *
        ((s.rewards.rewardData token).periodFinish - (s.rewards.rewardData token).lastUpdateTime)) *
          precision ≤ _
    dsimp only at hcov
    omega

/-! ## Notifications -/

/-- The new rate is what is added and what was left of the stream, divided by the period. -/
theorem newRewardRate_eq_ok {r : RewardData} {n rate : ℕ} (h : newRewardRate r now n = .ok rate) :
    rate = (n + r.rewardRate * (r.periodFinish - now)) / rewardsDuration := by
  unfold newRewardRate at h
  split_ifs at h with hfin
  · obtain ⟨-, rfl⟩ := ucast_eq_ok.1 h
    rw [Nat.sub_eq_zero_of_le hfin, Nat.mul_zero, Nat.add_zero]
  · obtain ⟨x₁, h₁, h⟩ := bind_eq_ok.1 h
    obtain ⟨-, rfl⟩ := usub_eq_ok.1 h₁
    obtain ⟨x₂, h₂, h⟩ := bind_eq_ok.1 h
    obtain ⟨-, rfl⟩ := umul_eq_ok.1 h₂
    obtain ⟨x₃, h₃, h⟩ := bind_eq_ok.1 h
    obtain ⟨-, rfl⟩ := uadd_eq_ok.1 h₃
    obtain ⟨-, rfl⟩ := ucast_eq_ok.1 h
    rw [Nat.mul_comm r.rewardRate]

/-- A new rate streams at most what is added and what was left of the stream. -/
theorem newRewardRate_le {r : RewardData} {n rate : ℕ} (h : newRewardRate r now n = .ok rate)
    (hle : r.lastUpdateTime ≤ now) :
    rate * rewardsDuration ≤ n + r.rewardRate * (r.periodFinish - r.lastUpdateTime) := by
  rw [newRewardRate_eq_ok h]
  refine (Nat.div_mul_le_self _ _).trans (Nat.add_le_add_left ?_ _)
  exact Nat.mul_le_mul_left _ (Nat.sub_le_sub_left hle _)

/-- A notification of `n` in one token is covered by `n` more of it. -/
theorem Funded.notify {n : ℕ} (h : Funded now s token funds) (hnow : 0 < now)
    (hsup : ∑ u ∈ users, (s.ledger.balances u).locked ≤ s.ledger.lockedSupply)
    (hx : _notifyReward s now token n = .ok s') : Funded now s' token (funds + n) := by
  obtain ⟨s₀, rate, h₀, hrate, hlt, -, hfin, rfl⟩ := notifyReward_eq_ok hx
  have hf := h.updateReward hnow hsup h₀
  have hle := newRewardRate_le hrate hf.updated_le
  set s' := setRewardData s₀ token (newPeriod (s₀.rewards.rewardData token) now rate) with hs'
  have hd : s'.rewards.rewardData token = newPeriod (s₀.rewards.rewardData token) now rate :=
    update_self _ _ _
  have hacc : accumulator s' token = accumulator s₀ token := by
    unfold accumulator
    rw [hd]
    rfl
  refine ⟨?_, ?_, ?_, ?_, ?_, fun u => ?_, hf.zero, fun hz => ?_, ?_, ?_⟩
  · rw [hd]
    exact le_rfl
  · rw [hd]
    exact Nat.le_add_right _ _
  · rw [hd]
    exact hfin
  · rw [hd]
    exact hlt
  · rw [hd]
    exact hf.index_lt
  · rw [hd]
    exact hf.paid_le u
  · rw [hd] at hz
    exact absurd hz hnow.ne'
  · rw [hd, hacc]
    exact hf.emitted.trans (Nat.mul_le_mul_right _ hf.updated_le)
  · have hcov := hf.covered
    have hscaled := Nat.mul_le_mul_right precision hle
    have hq : s'.rewards.queuedRewards token = s₀.rewards.queuedRewards token := rfl
    unfold obligations at hcov ⊢
    rw [hd, hacc, hq]
    dsimp only [newPeriod] at hcov ⊢
    rw [Nat.add_sub_cancel_left]
    rw [Nat.add_mul] at hcov hscaled ⊢
    rw [Nat.add_mul funds]
    omega

/-- A notification in one token leaves the others funded. -/
theorem Funded.notify_of_ne {other : Address} {n : ℕ} (h : Funded now s token funds)
    (hnow : 0 < now) (hsup : ∑ u ∈ users, (s.ledger.balances u).locked ≤ s.ledger.lockedSupply)
    (hne : token ≠ other) (hx : _notifyReward s now other n = .ok s') :
    Funded now s' token funds := by
  obtain ⟨s₀, rate, h₀, -, -, -, -, rfl⟩ := notifyReward_eq_ok hx
  exact (h.updateReward hnow hsup h₀).congr (by simp [setRewardData, hne]) (fun _ => rfl) rfl rfl

/-- Other queued rewards of the token, when the funds change by as much. -/
theorem Funded.setQueued {n funds' : ℕ} (h : Funded now s token funds)
    (hpos : 0 < (s.rewards.rewardData token).lastUpdateTime)
    (hn : funds + n ≤ funds' + s.rewards.queuedRewards token) :
    Funded now (Locker.setQueued s token n) token funds' := by
  have hq : (Locker.setQueued s token n).rewards.queuedRewards token = n := update_self _ _ _
  refine ⟨h.updated_le, h.updated_le_finish, h.finish_lt, h.rate_lt, h.index_lt, h.paid_le, h.zero,
    fun hz => absurd hz hpos.ne', h.emitted, ?_⟩
  have hcov := h.covered
  have hscaled := Nat.mul_le_mul_right precision hn
  have hacc : accumulator (Locker.setQueued s token n) token = accumulator s token := rfl
  unfold obligations at hcov ⊢
  rw [hq, hacc]
  change _ + (n + (s.rewards.rewardData token).rewardRate *
    ((s.rewards.rewardData token).periodFinish - (s.rewards.rewardData token).lastUpdateTime)) *
      precision ≤ _
  dsimp only at hcov
  rw [Nat.add_mul] at hcov ⊢
  rw [Nat.add_mul, Nat.add_mul] at hscaled
  omega

/-- Queueing `n` in a token is covered by `n` more of it. -/
theorem Funded.queueRewards {n : ℕ} (h : Funded now s token funds) (hnow : 0 < now)
    (hsup : ∑ u ∈ users, (s.ledger.balances u).locked ≤ s.ledger.lockedSupply)
    (hx : Locker.queueRewards s now token n = .ok s') : Funded now s' token (funds + n) := by
  obtain ⟨-, ⟨s₁, h₁, rfl⟩ | ⟨hfin, rfl⟩⟩ := queueRewards_eq_ok hx
  · have hn := h.notify hnow hsup h₁
    obtain ⟨s₀, rate, h₀, -, -, -, -, rfl⟩ := notifyReward_eq_ok h₁
    have hq : s₀.rewards.queuedRewards token = s.rewards.queuedRewards token := by
      rw [(updateReward_accrued h₀).queuedRewards]
    refine hn.setQueued ?_ ?_
    · show 0 < (update s₀.rewards.rewardData token _ token).lastUpdateTime
      rw [update_self]
      exact hnow
    · show _ ≤ _ + s₀.rewards.queuedRewards token
      omega
  · refine h.setQueued (Nat.pos_of_ne_zero fun hz => ?_) (by omega)
    rw [(h.idle hz).1] at hfin
    exact absurd hfin (Nat.not_lt_zero _)

/-- Queueing in one token leaves the others funded. -/
theorem Funded.queueRewards_of_ne {other : Address} {n : ℕ} (h : Funded now s token funds)
    (hnow : 0 < now) (hsup : ∑ u ∈ users, (s.ledger.balances u).locked ≤ s.ledger.lockedSupply)
    (hne : token ≠ other) (hx : Locker.queueRewards s now other n = .ok s') :
    Funded now s' token funds := by
  obtain ⟨-, ⟨s₁, h₁, rfl⟩ | ⟨-, rfl⟩⟩ := queueRewards_eq_ok hx
  · exact (h.notify_of_ne hnow hsup hne h₁).congr rfl (fun _ => rfl)
      (by simp [Locker.setQueued, hne]) rfl
  · exact h.congr rfl (fun _ => rfl) (by simp [Locker.setQueued, hne]) rfl

/-- Registering a token that nothing has happened with. -/
theorem Funded.addReward {other sender dist : Address} (h : Funded now s token funds)
    (hx : Locker.addReward s now sender other dist = .ok s') : Funded now s' token funds := by
  obtain ⟨hz, -, -, rfl⟩ := addReward_eq_ok hx
  by_cases hne : token = other
  swap
  · exact h.congr (by simp [setDistributor, hne]) (fun _ => rfl) rfl rfl
  subst hne
  obtain ⟨hr, hu, hq⟩ := h.idle hz
  have howed : (accumulator s token).owed precision users = 0 := by
    refine Accumulator.owed_eq_zero _ ?_ fun u _ => ?_
    · show (s.rewards.rewardData token).rewardPerTokenStored = 0
      rw [hr]
    · show (s.rewards.userData u token).rewards = 0
      rw [hu]
  set s' : Storage := { s with rewards := setDistributor { s.rewards with
    rewardTokens := s.rewards.rewardTokens ++ [token]
    rewardData := update s.rewards.rewardData token
      { s.rewards.rewardData token with
        lastUpdateTime := trunc 32 now, periodFinish := trunc 32 now } } token dist true }
  have hd : s'.rewards.rewardData token = ⟨trunc 32 now, trunc 32 now, 0, 0⟩ := by
    show update _ _ _ _ = _
    rw [update_self, hr]
  have hacc : accumulator s' token = accumulator s token := by
    unfold accumulator
    rw [hd, hr]
    rfl
  refine ⟨?_, ?_, ?_, ?_, ?_, fun u => ?_, h.zero, fun hz => ⟨?_, hu, hq⟩, ?_, ?_⟩
  · rw [hd]
    exact Nat.mod_le _ _
  · rw [hd]
  · rw [hd]
    exact trunc_lt 32 now
  · rw [hd]
    norm_num
  · rw [hd]
    norm_num
  · rw [hd]
    show (s.rewards.userData u token).rewardPerTokenPaid ≤ 0
    rw [hu]
  · rw [hd] at hz ⊢
    rw [show trunc 32 now = 0 from hz]
  · rw [hacc, howed]
    exact Nat.zero_le _
  · have hq' : s'.rewards.queuedRewards token = 0 := hq
    unfold obligations
    rw [hd, hacc, howed, hq']
    simp

/-- A token that was never updated needs no funds. -/
theorem Funded.of_idle (h : Funded now s token funds)
    (hz : (s.rewards.rewardData token).lastUpdateTime = 0) (funds' : ℕ) :
    Funded now s token funds' := by
  obtain ⟨hr, -, hq⟩ := h.idle hz
  have howed := h.emitted
  rw [hz, Nat.zero_mul, Nat.le_zero] at howed
  refine { h with covered := ?_ }
  unfold obligations
  rw [howed, hr, hq]
  simp

/-- A token that nothing has happened with. -/
theorem Deploys.funded (h : Deploys now s) (token : Address) (funds : ℕ) :
    Funded now s token funds := by
  obtain ⟨-, self, owner, st, cc, cs, -, rfl⟩ := h
  have howed : (accumulator (deploy now self owner st cc cs) token).owed precision users = 0 :=
    Accumulator.owed_eq_zero _ rfl fun _ _ => rfl
  refine ⟨Nat.zero_le _, le_rfl, ?_, ?_, ?_, fun _ => le_rfl, rfl,
    fun _ => ⟨rfl, fun _ => rfl, rfl⟩, ?_, ?_⟩
  · simp [deploy]
  · simp [deploy]
  · simp [deploy]
  · rw [howed]
    exact Nat.zero_le _
  · unfold obligations
    rw [howed]
    simp [deploy]

/-! ## The views return -/

theorem Funded.streamed_lt (h : Funded now s token funds) :
    streamed (s.rewards.rewardData token) now < 2 ^ 159 := by
  have hfin := applicable_le_finish now (s.rewards.rewardData token).periodFinish
  have hle := h.finish_lt
  calc streamed (s.rewards.rewardData token) now
      ≤ (_lastTimeRewardApplicable now (s.rewards.rewardData token).periodFinish -
          (s.rewards.rewardData token).lastUpdateTime) * (10 ^ 20 * precision) :=
        streamed_le _ _ h.rate_lt
    _ ≤ 2 ^ 32 * (10 ^ 20 * precision) := Nat.mul_le_mul_right _ (by omega)
    _ < 2 ^ 159 := by decide

/-- `_rewardPerToken` never reverts. -/
theorem Funded.rewardPerToken_eq (h : Funded now s token funds) :
    _rewardPerToken s now token = .ok (accrued s now token).index := by
  have hstream := h.streamed_lt
  have hle := le_applicable h.updated_le h.updated_le_finish
  have hindex := h.index_lt
  unfold _rewardPerToken
  dsimp only
  split_ifs with hz
  · show _ = Except.ok (_ + _ / s.ledger.lockedSupply)
    rw [hz, Nat.div_zero, Nat.add_zero]
    rfl
  · have hdiv := Nat.div_le_self (streamed (s.rewards.rewardData token) now) s.ledger.lockedSupply
    have hmul : (_lastTimeRewardApplicable now (s.rewards.rewardData token).periodFinish -
        (s.rewards.rewardData token).lastUpdateTime) * (s.rewards.rewardData token).rewardRate ≤
          streamed (s.rewards.rewardData token) now := Nat.le_mul_of_pos_right _ precision_pos
    rw [sub, usub_of hle, ok_bind, mul, umul_of (hmul.trans_lt (hstream.trans (by norm_num))),
      ok_bind, mul, ← precision, umul_of (show streamed _ _ < 2 ^ 256 from
        hstream.trans (by norm_num)), ok_bind, div, udiv_of hz, ok_bind]
    refine uadd_of (w := 256) (?_ : _ + streamed (s.rewards.rewardData token) now /
      s.ledger.lockedSupply < 2 ^ 256)
    omega

/-- The claim of a user stays far below what its type can hold. -/
theorem Funded.earned_lt (h : Funded now s token funds)
    (hsup : ∑ u ∈ users, (s.ledger.balances u).locked ≤ s.ledger.lockedSupply) (ha : a ≠ 0) :
    (accrued s now token).earned precision a < 2 ^ 128 := by
  have hle := (Accumulator.earned_le (a := accrued s now token) precision (mem_users.2 ha)).trans
    (h.emitted_accrued hsup)
  have hfin := applicable_le_finish now (s.rewards.rewardData token).periodFinish
  rw [← Nat.mul_assoc] at hle
  have hle := Nat.le_of_mul_le_mul_right hle precision_pos
  have hlt := h.finish_lt
  calc (accrued s now token).earned precision a
      ≤ _lastTimeRewardApplicable now (s.rewards.rewardData token).periodFinish * 10 ^ 20 := hle
    _ ≤ 2 ^ 32 * 10 ^ 20 := Nat.mul_le_mul_right _ (by omega)
    _ < 2 ^ 128 := by norm_num

/-- `_earned` never reverts for an account other than zero. -/
theorem Funded.earned_eq (h : Funded now s token funds)
    (hsup : ∑ u ∈ users, (s.ledger.balances u).locked ≤ s.ledger.lockedSupply) (ha : a ≠ 0) :
    _earned s now a token (s.ledger.balances a).locked =
      .ok ((accrued s now token).earned precision a) := by
  have hlt := h.earned_lt hsup ha
  have hpaid : (s.rewards.userData a token).rewardPerTokenPaid ≤ (accrued s now token).index :=
    (h.paid_le a).trans (Nat.le_add_right _ _)
  have hpending : (accrued s now token).pending a < 2 ^ 256 := by
    have hdiv : (accrued s now token).pending a / precision < 2 ^ 128 :=
      (Nat.le_add_right _ _).trans_lt hlt
    rw [Nat.div_lt_iff_lt_mul precision_pos] at hdiv
    exact hdiv.trans (by decide)
  have hmul : umul 256 (s.ledger.balances a).locked
      ((accrued s now token).index - (s.rewards.userData a token).rewardPerTokenPaid) =
        .ok ((accrued s now token).pending a) := umul_of hpending
  unfold _earned
  dsimp only
  rw [h.rewardPerToken_eq, ok_bind, sub, usub_of hpaid, ok_bind, mul, hmul, ok_bind]
  exact uadd_of (show (accrued s now token).earned precision a < 2 ^ 256 from
    hlt.trans (by norm_num))

end Aura.Locker
