import Aura.Locker.Accrual

/-!
# AuraLocker : reward streams

A call changes the rewards in a sequence of changes of five kinds (`RewardChange`), so a
property of the rewards is checked once for each kind and then holds along every run
(`RewardInductive.steps`).

With that, `queueNewRewards` never dilutes a stream. The code starts a new period early
only if what was streamed of the running one is less than 0.83 of what is queued, and then
the new rate is at least the old one (`rate_le_of_ratio`). So the rate of a running period
does not go down, whatever is called and however often (`streams_undiluted`).
-/

open Evm Function Relation Finset

namespace Aura.Locker

open AuraMath

variable {now n : ℕ} {s s' : Storage} {a token : Address} {w w' : World} {sender : Address}

/-! ## Changes of the rewards -/

/-- One change of the rewards at time `now`. -/
inductive RewardChange (now : ℕ) (s s' : Storage) : Prop
  /-- Other parts of the storage, or who may add rewards. -/
  | other (rewardTokens : s'.rewards.rewardTokens = s.rewards.rewardTokens)
      (rewardData : s'.rewards.rewardData = s.rewards.rewardData)
      (userData : s'.rewards.userData = s.rewards.userData)
  | accrue (a token : Address) (done : s' = accrue s now a token)
  | clear (a token : Address) (done : s' = clearRewards s a token)
  | queue {token : Address} {n : ℕ} (registered : token ∈ s.rewards.rewardTokens)
      (done : queueRewards s now token n = .ok s')
  | add {sender token dist : Address} (done : addReward s now sender token dist = .ok s')

/-- The rewards are the same. -/
theorem RewardChange.of_eq (h : s'.rewards = s.rewards) : RewardChange now s s' :=
  .other (by rw [h]) (by rw [h]) (by rw [h])

/-- `updateReward` accrues one token after the other. -/
theorem updateReward_rewardChanges (h : updateReward s now a = .ok s') :
    ReflTransGen (RewardChange now) s s' := by
  refine foldlM_keeps (ReflTransGen (RewardChange now) s) (fun token _ s₁ s₂ hs₁ hs₂ => ?_) .refl h
  obtain ⟨rfl, -⟩ := updateRewardToken_eq_ok hs₂
  exact hs₁.tail (.accrue a token rfl)

/-- `_processExpiredLocks` accrues rewards. -/
theorem processExpiredLocks_rewardChanges {ra : Address} {relock : Bool} {d : ℕ}
    (h : _processExpiredLocks w sender a relock ra d = .ok w') :
    ReflTransGen (RewardChange w.now) w.locker w'.locker ∧ w'.now = w.now := by
  obtain ⟨s₀, s₁, x, w₁, h₀, hx, -, hl, hn, -, h⟩ := processExpiredLocks_eq_ok h
  refine .imp (fun hr : w'.locker.rewards = s₀.rewards =>
    (updateReward_rewardChanges h₀).tail (.of_eq hr)) id ?_
  cases relock with
  | true =>
    obtain ⟨-, hn', hlock⟩ := h
    exact ⟨hlock.rewards.trans hx.rewards, hn'⟩
  | false =>
    have hmv : w₁.Moved w' _ _ _ _ := h
    exact ⟨by rw [hmv.locker, hl, hx.rewards], hmv.now.trans hn⟩

/-- Accrued rewards, and what paying them changes. -/
theorem pay_rewardChanges (w : World) (sender a : Address) {P : World → Prop}
    (hP : P = fun w₁ => ReflTransGen (RewardChange w.now) w.locker w₁.locker ∧ w₁.now = w.now) :
    (∀ s, updateReward w.locker w.now a = .ok s → P { w with locker := s }) ∧
      ∀ (b : Bool) (w₁ w₂ : World) (token : Address), P w₁ →
        payReward w₁ sender a b token = .ok w₂ → P w₂ := by
  subst hP
  refine ⟨fun s hs => ⟨updateReward_rewardChanges hs, rfl⟩, ?_⟩
  rintro b w₁ w₂ token ⟨hch, hn⟩ hw
  rcases payReward_eq_ok hw with rfl | ⟨dst, hmv⟩
  · exact ⟨hch, hn⟩
  · exact ⟨hch.tail (.clear a token hmv.locker), hmv.now.trans hn⟩

/-- A call is a sequence of changes of the rewards. -/
theorem exec_rewardChanges {c : Call} (hreg : Registered w.locker.rewards)
    (h : exec w sender c = .ok w') :
    ReflTransGen (RewardChange w.now) w.locker w'.locker ∧ w'.now = w.now := by
  cases c with
  | lock a n =>
    obtain ⟨s₀, w₁, h₀, -, -, hn, hlock⟩ := lockCall_eq_ok h
    exact ⟨(updateReward_rewardChanges h₀).tail (.of_eq hlock.rewards), hn⟩
  | getReward a b =>
    obtain ⟨hacc, hpay⟩ := pay_rewardChanges w sender a rfl
    exact getReward_keeps hacc (fun w₁ w₂ token _ => hpay b w₁ w₂ token) h
  | getRewardSkip a l =>
    obtain ⟨hacc, hpay⟩ := pay_rewardChanges w sender a rfl
    exact getRewardSkip_keeps hacc (fun w₁ w₂ token _ => hpay false w₁ w₂ token) h
  | checkpointEpoch =>
    obtain ⟨l, -, h⟩ := bind_eq_ok.1 (h : w.checkpointEpoch = .ok w')
    cases h
    exact ⟨.single (.of_eq rfl), rfl⟩
  | processExpiredLocks r => exact processExpiredLocks_rewardChanges h
  | kickExpiredLocks a =>
    obtain ⟨d, -, h⟩ := bind_eq_ok.1 (h : kickExpiredLocks w sender a = .ok w')
    exact processExpiredLocks_rewardChanges h
  | emergencyWithdraw =>
    obtain ⟨-, -, -, s₁, rfl, hmv⟩ := emergencyWithdraw_eq_ok h
    exact ⟨.single (.of_eq (by rw [hmv.locker])), hmv.now⟩
  | delegate d =>
    obtain ⟨s', hs, rfl⟩ := withLocker_eq_ok h
    obtain ⟨-, -, -, _, _, -, -, -, hs⟩ := delegate_eq_ok hs
    exact ⟨.single (.of_eq (by rw [hs])), rfl⟩
  | queueNewRewards t n =>
    obtain ⟨hd, w₁, -, hq, -, hn⟩ := queueNewRewards_eq_ok h
    exact ⟨.single (.queue (hreg.distributors t sender hd) hq), hn⟩
  | addReward t d =>
    obtain ⟨s', hs, rfl⟩ := withLocker_eq_ok h
    exact ⟨.single (.add hs), rfl⟩
  | approveRewardDistributor t d b =>
    obtain ⟨s', hs, rfl⟩ := withLocker_eq_ok h
    obtain ⟨-, rfl⟩ := approveRewardDistributor_eq_ok hs
    exact ⟨.single (.other rfl rfl rfl), rfl⟩
  | setKickIncentive _ _ | shutdown | modifyBlacklist _ _ | transferOwnership _ | setApprovals =>
    obtain ⟨hr, hn, -⟩ := exec_reconfigured rfl h
    exact ⟨.single (.of_eq hr.rewards), hn⟩
  | recoverERC20 t n =>
    obtain ⟨-, -, hmv⟩ := recoverERC20_eq_ok h
    exact ⟨.single (.of_eq (by rw [hmv.locker])), hmv.now⟩

/-- A property of the time and the rewards that time and every change keep. -/
structure RewardInductive (P : ℕ → Storage → Prop) : Prop where
  time : ∀ {now now' s}, P now s → now ≤ now' → P now' s
  change : ∀ {now s s'}, 0 < now → P now s → RewardChange now s s' → P now s'

/-- A call keeps such a property. -/
theorem RewardInductive.exec {P : ℕ → Storage → Prop} (hP : RewardInductive P) {c : Call}
    (hs : Solvent w) (hw : P w.now w.locker) (h : exec w sender c = .ok w') :
    P w'.now w'.locker := by
  obtain ⟨hch, hn⟩ := exec_rewardChanges hs.registered h
  rw [hn]
  generalize w'.locker = s' at hch ⊢
  induction hch with
  | refl => exact hw
  | tail _ hstep ih => exact hP.change hs.now_pos ih hstep

/-- A run from a reachable world keeps such a property. -/
theorem RewardInductive.steps {P : ℕ → Storage → Prop} (hP : RewardInductive P)
    {log log' : List Event} (hr : Reachable log w) (hw : P w.now w.locker)
    (h : Steps w log' w') : P w'.now w'.locker := by
  obtain ⟨w₀, h₀, hs₀⟩ := hr
  induction h with
  | refl => exact hw
  | elsewhere _ he ih =>
    rw [he.locker]
    exact hP.time ih he.now
  | call hs _ hx ih => exact hP.exec (Reachable.solvent ⟨w₀, h₀, hs₀.trans hs⟩) ih hx

/-! ## Starting a period -/

/-- Whether `queueNewRewards` starts a new period : the running one is over, or what it has
streamed is a small part of what is queued. -/
def startsPeriod (s : Storage) (now : ℕ) (_rewardsToken : Address) (_rewards : ℕ) : Prop :=
  let r := s.rewards.rewardData _rewardsToken
  r.periodFinish ≤ now ∨
    r.rewardRate * (now - (r.periodFinish - rewardsDuration)) * 1000 /
      (_rewards + s.rewards.queuedRewards _rewardsToken) < newRewardRatio

instance (s : Storage) (now : ℕ) (_rewardsToken : Address) (_rewards : ℕ) :
    Decidable (startsPeriod s now _rewardsToken _rewards) :=
  inferInstanceAs (Decidable (_ ∨ _))

/-- What a running period looks like when its elapsed part was computed. -/
structure Running (r : RewardData) (now : ℕ) : Prop where
  lt : now < r.periodFinish
  duration_le : rewardsDuration ≤ r.periodFinish
  started : r.periodFinish - rewardsDuration ≤ now

/-- What `queueRewards` did, with the test that it made. -/
theorem queueRewards_cases (h : queueRewards s now token n = .ok s') :
    (now < (s.rewards.rewardData token).periodFinish → Running (s.rewards.rewardData token) now ∧
        n + s.rewards.queuedRewards token ≠ 0) ∧
      if startsPeriod s now token n then
        ∃ s₁, _notifyReward s now token (n + s.rewards.queuedRewards token) = .ok s₁ ∧
          s' = setQueued s₁ token 0
      else s' = setQueued s token (n + s.rewards.queuedRewards token) := by
  unfold queueRewards at h
  obtain ⟨r, hr, h⟩ := bind_eq_ok.1 h
  obtain ⟨-, rfl⟩ := uadd_eq_ok.1 hr
  obtain ⟨-, h⟩ := require_bind_eq_ok.1 h
  split_ifs at h with hfin
  · obtain ⟨s₁, h₁, h⟩ := bind_eq_ok.1 h
    cases h
    rw [if_pos (.inl hfin)]
    exact ⟨fun hlt => absurd hlt (not_lt.2 hfin), s₁, h₁, rfl⟩
  · obtain ⟨d, h₁, h⟩ := bind_eq_ok.1 h
    obtain ⟨-, hd⟩ := ucast_eq_ok.1 h₁
    obtain ⟨x₂, h₂, h⟩ := bind_eq_ok.1 h
    obtain ⟨hdur, rfl⟩ := usub_eq_ok.1 h₂
    obtain ⟨x₃, h₃, h⟩ := bind_eq_ok.1 h
    obtain ⟨hstart, rfl⟩ := usub_eq_ok.1 h₃
    obtain ⟨x₄, h₄, h⟩ := bind_eq_ok.1 h
    obtain ⟨-, rfl⟩ := umul_eq_ok.1 h₄
    obtain ⟨x₅, h₅, h⟩ := bind_eq_ok.1 h
    obtain ⟨-, rfl⟩ := umul_eq_ok.1 h₅
    obtain ⟨x₆, h₆, h⟩ := bind_eq_ok.1 h
    obtain ⟨hne, rfl⟩ := udiv_eq_ok.1 h₆
    rw [hd] at h hdur hstart
    refine ⟨fun hlt => ⟨⟨hlt, hdur, hstart⟩, hne⟩, ?_⟩
    split_ifs at h with hratio
    · obtain ⟨s₁, h₁, h⟩ := bind_eq_ok.1 h
      cases h
      rw [if_pos (.inr hratio)]
      exact ⟨s₁, h₁, rfl⟩
    · cases h
      have hnot : ¬startsPeriod s now token n := not_or.2 ⟨hfin, hratio⟩
      rw [if_neg hnot]

/-- Accruing leaves the rate and the end of every period alone. -/
theorem accrue_schedule (s : Storage) (now : ℕ) (a other token : Address) :
    ((accrue s now a other).rewards.rewardData token).rewardRate =
        (s.rewards.rewardData token).rewardRate ∧
      ((accrue s now a other).rewards.rewardData token).periodFinish =
        (s.rewards.rewardData token).periodFinish := by
  by_cases hne : token = other
  · subst hne
    rw [accrue_rewardData]
    exact ⟨rfl, rfl⟩
  · rw [(accrue_of_ne s now a hne).1]
    exact ⟨rfl, rfl⟩

theorem updateReward_schedule (h : updateReward s now a = .ok s') (token : Address) :
    (s'.rewards.rewardData token).rewardRate = (s.rewards.rewardData token).rewardRate ∧
      (s'.rewards.rewardData token).periodFinish = (s.rewards.rewardData token).periodFinish := by
  set r := s.rewards.rewardData token
  refine foldlM_keeps (fun s₁ => (s₁.rewards.rewardData token).rewardRate = r.rewardRate ∧
    (s₁.rewards.rewardData token).periodFinish = r.periodFinish)
    (fun other _ s₁ s₂ hs₁ hs₂ => ?_) ⟨rfl, rfl⟩ h
  obtain ⟨rfl, -⟩ := updateRewardToken_eq_ok hs₂
  obtain ⟨hrate, hfin⟩ := accrue_schedule s₁ now a other token
  exact ⟨hrate.trans hs₁.1, hfin.trans hs₁.2⟩

/-- What a notification does to the data of its token : a period of one week starts, with
the rate for what is added and what was left. -/
theorem notifyReward_rewardData (h : _notifyReward s now token n = .ok s') :
    let r := s.rewards.rewardData token
    let r' := s'.rewards.rewardData token
    r'.rewardRate = (n + r.rewardRate * (r.periodFinish - now)) / rewardsDuration ∧
      r'.periodFinish = now + rewardsDuration ∧ r'.lastUpdateTime = now := by
  obtain ⟨s₀, rate, h₀, hrate, -, -, -, rfl⟩ := notifyReward_eq_ok h
  obtain ⟨hr, hfin⟩ := updateReward_schedule h₀ token
  have hd : (setRewardData s₀ token
      (newPeriod (s₀.rewards.rewardData token) now rate)).rewards.rewardData token =
        newPeriod (s₀.rewards.rewardData token) now rate := update_self _ _ _
  dsimp only
  rw [hd, ← hr, ← hfin]
  exact ⟨newRewardRate_eq_ok hrate, rfl, rfl⟩

/-! ## The rule of 83 percent -/

/-- If what was streamed in `elapsed` of a period is less than 0.83 of `queued`, sharing
`queued` and the rest of the stream out over a new period does not lower the rate. -/
theorem rate_le_of_ratio {rate elapsed remaining queued duration : ℕ} (hpos : 0 < duration)
    (hdur : elapsed + remaining = duration) (hq : queued ≠ 0)
    (hratio : rate * elapsed * 1000 / queued < newRewardRatio) :
    rate ≤ (queued + rate * remaining) / duration := by
  rw [Nat.div_lt_iff_lt_mul (Nat.pos_of_ne_zero hq), newRewardRatio] at hratio
  rw [Nat.le_div_iff_mul_le hpos, ← hdur, Nat.mul_add]
  omega

/-- An early new period is no slower and ends no earlier than the running one. -/
theorem queueRewards_rate_le (h : queueRewards s now token n = .ok s')
    (hlt : now < (s.rewards.rewardData token).periodFinish) :
    (s.rewards.rewardData token).rewardRate ≤ (s'.rewards.rewardData token).rewardRate ∧
      (s.rewards.rewardData token).periodFinish ≤ (s'.rewards.rewardData token).periodFinish := by
  obtain ⟨hrun, h⟩ := queueRewards_cases h
  obtain ⟨hrun, hne⟩ := hrun hlt
  split_ifs at h with hstart
  · obtain ⟨s₁, h₁, rfl⟩ := h
    obtain ⟨hrate, hfin, -⟩ := notifyReward_rewardData h₁
    have hratio := hstart.resolve_left (not_le.2 hlt)
    have hle := hrun.started
    have hdur := hrun.duration_le
    show _ ≤ (s₁.rewards.rewardData token).rewardRate ∧
      _ ≤ (s₁.rewards.rewardData token).periodFinish
    rw [hrate, hfin]
    exact ⟨rate_le_of_ratio rewardsDuration_pos (by omega) hne hratio, by omega⟩
  · subst h
    exact ⟨le_rfl, le_rfl⟩

/-! ## What has accrued -/

theorem rewardPerToken_congr (hd : s'.rewards.rewardData token = s.rewards.rewardData token)
    (hl : s'.ledger = s.ledger) : _rewardPerToken s' now token = _rewardPerToken s now token := by
  unfold _rewardPerToken
  rw [hd, hl]

theorem earned_congr (hr : _rewardPerToken s' now token = _rewardPerToken s now token)
    (hu : s'.rewards.userData a token = s.rewards.userData a token) (_balance : ℕ) :
    _earned s' now a token _balance = _earned s now a token _balance := by
  unfold _earned
  rw [hr, hu]

/-- `updateReward` settles nobody but its account, and not the zero account. -/
theorem updateReward_userData {u : Address} (h : updateReward s now a = .ok s')
    (hu : a ≠ 0 → u ≠ a) (token : Address) :
    s'.rewards.userData u token = s.rewards.userData u token := by
  refine foldlM_keeps (fun s₁ => s₁.rewards.userData u token = s.rewards.userData u token)
    (fun other _ s₁ s₂ hs₁ hs₂ => ?_) rfl h
  obtain ⟨rfl, -⟩ := updateRewardToken_eq_ok hs₂
  refine Eq.trans ?_ hs₁
  by_cases hne : token = other
  · subst hne
    rw [accrue_userData, if_neg fun hc => hu hc.1 hc.2]
  · exact (accrue_of_ne s₁ now a hne).2 u

/-- `updateReward` leaves a token alone that is not registered. -/
theorem updateReward_of_notMem (hm : token ∉ s.rewards.rewardTokens)
    (h : updateReward s now a = .ok s') :
    s'.rewards.rewardData token = s.rewards.rewardData token := by
  refine foldlM_keeps (fun s₁ => s₁.rewards.rewardData token = s.rewards.rewardData token)
    (fun other ho s₁ s₂ hs₁ hs₂ => ?_) rfl h
  obtain ⟨rfl, -⟩ := updateRewardToken_eq_ok hs₂
  have hne : token ≠ other := fun he => hm (he ▸ ho)
  exact ((accrue_of_ne s₁ now a hne).1).trans hs₁

/-- After `updateReward` nothing is left to distribute. -/
theorem updateReward_streamed (h : updateReward s now a = .ok s')
    (hm : token ∈ s.rewards.rewardTokens) : streamed (s'.rewards.rewardData token) now = 0 := by
  have hlast := foldlM_each (P := fun token s => (s.rewards.rewardData token).lastUpdateTime =
      _lastTimeRewardApplicable now (s.rewards.rewardData token).periodFinish)
    (fun token s₁ s₂ h => by
      obtain ⟨rfl, -⟩ := updateRewardToken_eq_ok h
      rw [accrue_rewardData])
    (fun token other s₁ s₂ hs h => by
      obtain ⟨rfl, -⟩ := updateRewardToken_eq_ok h
      by_cases hne : token = other
      · subst hne
        rw [accrue_rewardData]
      · rw [(accrue_of_ne s₁ now a hne).1]
        exact hs) h token hm
  rw [streamed, hlast, Nat.sub_self, Nat.zero_mul, Nat.zero_mul]

/-- `updateReward` does not change what a unit of any token has earned. -/
theorem Funded.updateReward_rewardPerToken {funds : ℕ} (h : Funded now s token funds)
    (hnow : 0 < now) (hsup : ∑ u ∈ users, (s.ledger.balances u).locked ≤ s.ledger.lockedSupply)
    (hx : Locker.updateReward s now a = .ok s') :
    _rewardPerToken s' now token = _rewardPerToken s now token := by
  rw [(h.updateReward hnow hsup hx).rewardPerToken_eq, h.rewardPerToken_eq, updateReward_index hx]

/-- Nor does a notification. -/
theorem Funded.notify_rewardPerToken {funds : ℕ} (h : Funded now s token funds) (hnow : 0 < now)
    (hsup : ∑ u ∈ users, (s.ledger.balances u).locked ≤ s.ledger.lockedSupply)
    (hm : token ∈ s.rewards.rewardTokens) {other : Address}
    (hx : _notifyReward s now other n = .ok s') :
    _rewardPerToken s' now token = _rewardPerToken s now token := by
  obtain ⟨s₀, rate, h₀, -, -, -, -, hs'⟩ := notifyReward_eq_ok hx
  have hsame := h.updateReward_rewardPerToken hnow hsup h₀
  by_cases hne : token = other
  swap
  · rw [← hsame]
    refine rewardPerToken_congr ?_ (by rw [hs']; rfl)
    rw [hs']
    exact update_of_ne hne _ _
  subst hne
  have hd : s'.rewards.rewardData token = newPeriod (s₀.rewards.rewardData token) now rate := by
    rw [hs']
    exact update_self _ _ _
  -- nothing is left of the old stream, and nothing has come of the new one
  have hnew : streamed (s'.rewards.rewardData token) now = 0 := by
    have hle := applicable_le_now now (now + rewardsDuration)
    rw [hd, streamed, newPeriod, Nat.sub_eq_zero_of_le hle, Nat.zero_mul, Nat.zero_mul]
  rw [← hsame, (h.notify hnow hsup hx).rewardPerToken_eq,
    (h.updateReward hnow hsup h₀).rewardPerToken_eq]
  show Except.ok (RewardData.rewardPerTokenStored _ + streamed _ now / _) =
    Except.ok (RewardData.rewardPerTokenStored _ + streamed _ now / _)
  rw [hnew, updateReward_streamed h₀ hm, Nat.zero_div, Nat.zero_div, hd]
  rfl

/-- Queueing rewards does not change what anybody has earned. -/
theorem Solvent.earned_queueRewards (h : Solvent w) (hsup : Sums w.now w.locker)
    (hm : token ∈ w.locker.rewards.rewardTokens)
    (hx : queueRewards w.locker w.now token n = .ok s') (u other : Address) :
    _earned s' w.now u other (s'.ledger.balances u).locked =
      _earned w.locker w.now u other (w.locker.ledger.balances u).locked := by
  have hl := (queueRewards_keeps hx).1
  rw [hl]
  obtain ⟨-, hx⟩ := queueRewards_cases hx
  split_ifs at hx
  swap
  · rw [hx]
    exact earned_congr (rewardPerToken_congr rfl rfl) rfl _
  obtain ⟨s₁, h₁, rfl⟩ := hx
  obtain ⟨s₀, rate, h₀, -, -, -, -, hs₁⟩ := notifyReward_eq_ok h₁
  have hu : s₁.rewards.userData u other = w.locker.rewards.userData u other := by
    rw [hs₁]
    exact updateReward_userData h₀ (fun hz => absurd rfl hz) other
  refine (earned_congr (s := s₁) (rewardPerToken_congr rfl rfl) rfl _).trans (earned_congr ?_ hu _)
  by_cases ho : other ∈ w.locker.rewards.rewardTokens
  · have hne : other ≠ w.locker.config.stakingToken := fun he => h.notReward (he ▸ ho)
    exact (h.funded other hne).notify_rewardPerToken h.now_pos hsup.users_le ho h₁
  · have hne : other ≠ token := fun he => ho (he ▸ hm)
    refine rewardPerToken_congr ?_ hl
    rw [hs₁]
    exact (update_of_ne hne _ _).trans (updateReward_of_notMem ho h₀)

/-! ## Running periods -/

/-- The period `r₀` of a token, as long as it runs : the token is in use, and its rate and
the end of its period have not gone down. -/
def Unslowed (r₀ : RewardData) (token : Address) (now : ℕ) (s : Storage) : Prop :=
  now < r₀.periodFinish → 0 < (s.rewards.rewardData token).lastUpdateTime ∧
    r₀.rewardRate ≤ (s.rewards.rewardData token).rewardRate ∧
    r₀.periodFinish ≤ (s.rewards.rewardData token).periodFinish

variable {r₀ : RewardData}

theorem Unslowed.congr (h : Unslowed r₀ token now s)
    (hd : s'.rewards.rewardData token = s.rewards.rewardData token) :
    Unslowed r₀ token now s' := by
  unfold Unslowed
  rw [hd]
  exact h

theorem Unslowed.accrue (h : Unslowed r₀ token now s) (hnow : 0 < now) (a other : Address) :
    Unslowed r₀ token now (accrue s now a other) := by
  intro hlt
  obtain ⟨hlast, hrate, hfin⟩ := h hlt
  obtain ⟨hrate', hfin'⟩ := accrue_schedule s now a other token
  refine ⟨?_, hrate'.symm ▸ hrate, hfin'.symm ▸ hfin⟩
  by_cases hne : token = other
  · subst hne
    rw [accrue_rewardData]
    exact le_applicable hnow (Nat.lt_of_lt_of_le (Nat.zero_lt_of_lt hlt) hfin)
  · rwa [(accrue_of_ne s now a hne).1]

theorem Unslowed.updateReward (h : Unslowed r₀ token now s) (hnow : 0 < now)
    (hx : updateReward s now a = .ok s') : Unslowed r₀ token now s' := by
  refine foldlM_keeps (Unslowed r₀ token now) (fun other _ s₁ s₂ hs₁ hs₂ => ?_) h hx
  obtain ⟨rfl, -⟩ := updateRewardToken_eq_ok hs₂
  exact hs₁.accrue hnow a other

theorem Unslowed.queue {other : Address} (h : Unslowed r₀ token now s) (hnow : 0 < now)
    (hx : queueRewards s now other n = .ok s') : Unslowed r₀ token now s' := by
  by_cases hne : token = other
  · subst hne
    intro hlt
    obtain ⟨hlast, hrate, hfin⟩ := h hlt
    obtain ⟨hrate', hfin'⟩ := queueRewards_rate_le hx (hlt.trans_le hfin)
    refine ⟨?_, hrate.trans hrate', hfin.trans hfin'⟩
    obtain ⟨-, hx⟩ := queueRewards_cases hx
    split_ifs at hx
    · obtain ⟨s₁, h₁, rfl⟩ := hx
      exact (notifyReward_rewardData h₁).2.2.symm ▸ hnow
    · rwa [hx]
  · obtain ⟨-, ⟨s₁, h₁, rfl⟩ | ⟨-, rfl⟩⟩ := queueRewards_eq_ok hx
    · obtain ⟨s₀, rate, h₀, -, -, -, -, rfl⟩ := notifyReward_eq_ok h₁
      exact (h.updateReward hnow h₀).congr (update_of_ne hne _ _)
    · exact h.congr rfl

/-- A running period is not slowed down by any change. -/
theorem rewardInductive_unslowed (r₀ : RewardData) (token : Address) :
    RewardInductive (Unslowed r₀ token) where
  time h hn hlt := h (hn.trans_lt hlt)
  change := by
    intro now s s' hnow h hch
    cases hch with
    | other _ hd _ => exact h.congr (by rw [hd])
    | accrue a other hs => exact hs ▸ h.accrue hnow a other
    | clear a other hs => exact hs ▸ h.congr rfl
    | queue _ hx => exact h.queue hnow hx
    | @add _ other _ hx =>
      obtain ⟨hz, -, -, rfl⟩ := addReward_eq_ok hx
      by_cases hne : token = other
      · -- a token in use cannot be registered again
        subst hne
        exact fun hlt => absurd hz (h hlt).1.ne'
      · exact h.congr (update_of_ne hne _ _)

/-- Until the end of its period, the rate of a token does not go down and the period does
not end earlier. -/
theorem Reachable.rate_le {log log' : List Event} (hr : Reachable log w)
    (hm : token ∈ w.locker.rewards.rewardTokens) (h : Steps w log' w')
    (hlt : w'.now < (w.locker.rewards.rewardData token).periodFinish) :
    (w.locker.rewards.rewardData token).rewardRate ≤
        (w'.locker.rewards.rewardData token).rewardRate ∧
      (w.locker.rewards.rewardData token).periodFinish ≤
        (w'.locker.rewards.rewardData token).periodFinish := by
  set r := w.locker.rewards.rewardData token with hr₀
  have hstart : Unslowed r token w.now w.locker := fun hlt => by
    refine ⟨Nat.pos_of_ne_zero fun hz => ?_, le_rfl, le_rfl⟩
    have hne : token ≠ w.locker.config.stakingToken := fun he => hr.solvent.notReward (he ▸ hm)
    rw [hr₀, ((hr.solvent.funded token hne).idle hz).1] at hlt
    exact absurd hlt (Nat.not_lt_zero _)
  exact ((rewardInductive_unslowed r token).steps hr hstart h hlt).2

/-! ## Notifications do not dilute -/

/-- What `queueNewRewards` of `n` in a token does to its stream. -/
structure Undiluted (w w' : World) (token : Address) (n : ℕ) : Prop where
  /-- A period that starts early is no slower. -/
  rate_le : startsPeriod w.locker w.now token n →
    w.now < (w.locker.rewards.rewardData token).periodFinish →
    (w.locker.rewards.rewardData token).rewardRate ≤ (w'.locker.rewards.rewardData token).rewardRate
  /-- A new period streams all there is but a remainder below its number of seconds. -/
  shared : startsPeriod w.locker w.now token n →
    let r := w.locker.rewards.rewardData token
    let r' := w'.locker.rewards.rewardData token
    let total := n + w.locker.rewards.queuedRewards token + r.rewardRate * (r.periodFinish - w.now)
    r'.rewardRate * rewardsDuration ≤ total ∧
      total < r'.rewardRate * rewardsDuration + rewardsDuration
  started : startsPeriod w.locker w.now token n →
    (w'.locker.rewards.rewardData token).periodFinish = w.now + rewardsDuration ∧
      w'.locker.rewards.queuedRewards token = 0
  queued : ¬startsPeriod w.locker w.now token n →
    w'.locker.rewards.queuedRewards token = w.locker.rewards.queuedRewards token + n ∧
      w'.locker.rewards.rewardData token = w.locker.rewards.rewardData token
  earned : ∀ u t, _earned w'.locker w.now u t (w'.locker.ledger.balances u).locked =
    _earned w.locker w.now u t (w.locker.ledger.balances u).locked

/-- In every reachable world no `queueNewRewards` dilutes the stream of its token, and no
sequence of calls slows a running period down. -/
theorem streams_undiluted {log : List Event} (h : Reachable log w) {token : Address}
    (hm : token ∈ w.locker.rewards.rewardTokens) :
    (∀ sender n w', queueNewRewards w sender token n = .ok w' → Undiluted w w' token n) ∧
      ∀ log' w', Steps w log' w' → w'.now < (w.locker.rewards.rewardData token).periodFinish →
        (w.locker.rewards.rewardData token).rewardRate ≤
            (w'.locker.rewards.rewardData token).rewardRate ∧
          (w.locker.rewards.rewardData token).periodFinish ≤
            (w'.locker.rewards.rewardData token).periodFinish := by
  refine ⟨fun sender n w' hx => ?_, fun log' w' hs hlt => h.rate_le hm hs hlt⟩
  obtain ⟨-, w₁, -, hq, -, -⟩ := queueNewRewards_eq_ok hx
  obtain ⟨first, hinv⟩ := h.ledgerInv
  obtain ⟨-, hcases⟩ := queueRewards_cases hq
  refine ⟨fun _ hlt => (queueRewards_rate_le hq hlt).1, fun hstart => ?_, fun hstart => ?_,
    fun hstart => ?_, h.solvent.earned_queueRewards hinv.sums hm hq⟩
  · rw [if_pos hstart] at hcases
    obtain ⟨s₁, h₁, hs'⟩ := hcases
    have hrate := (notifyReward_rewardData h₁).1
    rw [hs']
    dsimp only
    rw [show ((setQueued s₁ token 0).rewards.rewardData token).rewardRate = _ from hrate]
    exact ⟨Nat.div_mul_le_self _ _, Nat.lt_div_mul_add rewardsDuration_pos⟩
  · rw [if_pos hstart] at hcases
    obtain ⟨s₁, h₁, hs'⟩ := hcases
    rw [hs']
    exact ⟨(notifyReward_rewardData h₁).2.1, update_self _ _ _⟩
  · rw [if_neg hstart] at hcases
    rw [hcases]
    exact ⟨(update_self _ _ _).trans (Nat.add_comm _ _), rfl⟩

/-- A second notification half a week into the first one, small enough to be queued, and a
third one that starts a new period. -/
theorem streams_undiluted_run : ∃ w w' : World,
    queueNewRewards w 1 300 (10 * rewardsDuration) = .ok w' ∧
      ¬startsPeriod w.locker w.now 300 rewardsDuration ∧
      startsPeriod w.locker w.now 300 (10 * rewardsDuration) ∧
      Undiluted w w' 300 (10 * rewardsDuration) ∧
      (∀ log' w', Steps w log' w' → w'.now < 21 * rewardsDuration →
        10 ≤ (w'.locker.rewards.rewardData 300).rewardRate) := by
  let start := 20 * rewardsDuration
  let log : List Event := [⟨start, 1, .lock 1 (10 ^ 20)⟩, ⟨start, 101, .addReward 300 1⟩,
    ⟨start, 1, .queueNewRewards 300 (10 * rewardsDuration)⟩,
    ⟨start + rewardsDuration / 2, 1, .queueNewRewards 300 rewardsDuration⟩]
  let w := (World.initial start).after log
  have h : Reachable log w := ⟨_, World.initial_deployed (by decide), .after (by decide +kernel)⟩
  obtain ⟨w', hw⟩ := Tx.exists_ok
    (show (queueNewRewards w 1 300 (10 * rewardsDuration)).returns = true by decide +kernel)
  obtain ⟨hone, hrun⟩ := streams_undiluted h (show (300 : Address) ∈ _ by decide +kernel)
  refine ⟨w, w', hw, by decide +kernel, by decide +kernel, hone 1 _ w' hw, fun log' w₁ hs hlt => ?_⟩
  have hrate : (w.locker.rewards.rewardData 300).rewardRate = 10 := by decide +kernel
  have hfin : (w.locker.rewards.rewardData 300).periodFinish = 21 * rewardsDuration := by
    decide +kernel
  exact hrate.symm.le.trans (hrun log' w₁ hs (hfin.symm ▸ hlt)).1

end Aura.Locker
