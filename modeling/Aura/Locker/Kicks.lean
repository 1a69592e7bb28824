import Aura.Locker.Custody
import Aura.ProRata

/-!
# AuraLocker : kicks

Anyone may kick the locks of an account that have been expired for longer than a delay, and
keeps a part of them that grows with every week they are late. The grace period is enforced
by the checked subtraction in `kickReward`, also after a shutdown, when the expiry of locks is
not looked at : it is made for the last lock, and the others unlock earlier as long as unlock
times fit in `uint32` (`kick_bounded`).
-/

open Evm Function Finset

namespace Aura.Locker

open AuraMath

/-! ## The kick settings -/

/-- A rate and a delay that `setKickIncentive` accepts. -/
structure Admissible (c : Config) : Prop where
  rate : c.kickRewardPerEpoch ≤ 500
  delay : 2 ≤ c.kickRewardEpochDelay

variable {w w' : World} {sender : Address}

theorem payReward_config {w₁ w₂ : World} {a token : Address} {stake : Bool}
    (h : payReward w₁ sender a stake token = .ok w₂) : w₂.locker.config = w₁.locker.config := by
  rcases payReward_eq_ok h with rfl | ⟨dst, hmv⟩
  · rfl
  · rw [hmv.locker]
    rfl

theorem processExpiredLocks_config {a ra : Address} {relock : Bool} {d : ℕ}
    (h : _processExpiredLocks w sender a relock ra d = .ok w') :
    w'.locker.config = w.locker.config := by
  obtain ⟨s₀, s₁, x, w₁, h₀, hx, -, hl, -, -, h⟩ := processExpiredLocks_eq_ok h
  have hconfig : s₁.config = w.locker.config := hx.config.trans (updateReward_accrued h₀).config
  cases relock with
  | true => exact h.2.2.config.trans hconfig
  | false =>
    have hmv : w₁.Moved w' _ _ _ _ := h
    rw [hmv.locker, hl, hconfig]

theorem lock_config {a : Address} {n : ℕ} (h : lock w sender a n = .ok w') :
    w'.locker.config = w.locker.config := by
  obtain ⟨s₀, w₁, h₀, -, -, -, hlock⟩ := lockCall_eq_ok h
  exact hlock.config.trans (updateReward_accrued h₀).config

theorem getReward_config {a : Address} {stake : Bool} (h : getReward w sender a stake = .ok w') :
    w'.locker.config = w.locker.config :=
  getReward_keeps (P := fun w₁ => w₁.locker.config = w.locker.config)
    (fun _ hs => (updateReward_accrued hs).config)
    (fun _ _ _ _ hw₁ hpay => (payReward_config hpay).trans hw₁) h

theorem getRewardSkip_config {a : Address} {skip : List Bool}
    (h : getRewardSkip w sender a skip = .ok w') : w'.locker.config = w.locker.config :=
  getRewardSkip_keeps (P := fun w₁ => w₁.locker.config = w.locker.config)
    (fun _ hs => (updateReward_accrued hs).config)
    (fun _ _ _ _ hw₁ hpay => (payReward_config hpay).trans hw₁) h

theorem kickExpiredLocks_config {a : Address} (h : kickExpiredLocks w sender a = .ok w') :
    w'.locker.config = w.locker.config := by
  obtain ⟨d, -, h⟩ := bind_eq_ok.1 h
  exact processExpiredLocks_config h

theorem delegate_config {s s' : Storage} {now : ℕ} {d : Address}
    (h : delegate s now sender d = .ok s') : s'.config = s.config := by
  obtain ⟨-, -, -, _, _, -, -, -, hs'⟩ := delegate_eq_ok h
  rw [hs']

theorem setKickIncentive_admissible {s s' : Storage} {r d : ℕ}
    (h : setKickIncentive s sender r d = .ok s') : Admissible s'.config := by
  obtain ⟨-, -, h⟩ := bind_eq_ok.1 h
  obtain ⟨hr, h⟩ := require_bind_eq_ok.1 h
  obtain ⟨hd, h⟩ := require_bind_eq_ok.1 h
  cases h
  exact ⟨hr, hd⟩

theorem Admissible.shutdown {s s' : Storage} (hs : Admissible s.config)
    (h : Locker.shutdown s sender = .ok s') : Admissible s'.config := by
  obtain ⟨-, -, h⟩ := bind_eq_ok.1 h
  cases h
  exact ⟨hs.rate, hs.delay⟩

theorem Admissible.modifyBlacklist {a : Address} {b : Bool} (hw : Admissible w.locker.config)
    (h : Locker.modifyBlacklist w sender a b = .ok w') : Admissible w'.locker.config := by
  obtain ⟨-, -, h⟩ := bind_eq_ok.1 h
  obtain ⟨-, h⟩ := require_bind_eq_ok.1 h
  cases h
  exact ⟨hw.rate, hw.delay⟩

theorem Admissible.transferOwnership {s s' : Storage} {a : Address} (hs : Admissible s.config)
    (h : Locker.transferOwnership s sender a = .ok s') : Admissible s'.config := by
  obtain ⟨-, -, h⟩ := bind_eq_ok.1 h
  obtain ⟨-, h⟩ := require_bind_eq_ok.1 h
  cases h
  exact ⟨hs.rate, hs.delay⟩

/-- Every call keeps the settings admissible. -/
theorem Admissible.exec (hw : Admissible w.locker.config) {c : Call}
    (h : exec w sender c = .ok w') : Admissible w'.locker.config := by
  cases c with
  | lock a n => rwa [lock_config h]
  | getReward a b => rwa [getReward_config h]
  | getRewardSkip a l => rwa [getRewardSkip_config h]
  | checkpointEpoch =>
    obtain ⟨l, -, h⟩ := bind_eq_ok.1 (h : w.checkpointEpoch = .ok w')
    cases h
    exact hw
  | processExpiredLocks r => rwa [processExpiredLocks_config h]
  | kickExpiredLocks a => rwa [kickExpiredLocks_config h]
  | emergencyWithdraw =>
    obtain ⟨-, -, -, s₁, rfl, hmv⟩ := emergencyWithdraw_eq_ok h
    rwa [hmv.locker]
  | delegate d =>
    obtain ⟨s', hs, rfl⟩ := withLocker_eq_ok h
    rwa [delegate_config hs]
  | queueNewRewards t n =>
    obtain ⟨-, w₁, -, hq, -, -⟩ := queueNewRewards_eq_ok h
    rwa [(queueRewards_keeps hq).2.2.1]
  | addReward t d =>
    obtain ⟨s', hs, rfl⟩ := withLocker_eq_ok h
    obtain ⟨-, -, -, rfl⟩ := addReward_eq_ok hs
    exact hw
  | approveRewardDistributor t d b =>
    obtain ⟨s', hs, rfl⟩ := withLocker_eq_ok h
    obtain ⟨-, rfl⟩ := approveRewardDistributor_eq_ok hs
    exact hw
  | setKickIncentive r d =>
    obtain ⟨s', hs, rfl⟩ := withLocker_eq_ok h
    exact setKickIncentive_admissible hs
  | shutdown =>
    obtain ⟨s', hs, rfl⟩ := withLocker_eq_ok h
    exact hw.shutdown hs
  | modifyBlacklist a b => exact hw.modifyBlacklist h
  | transferOwnership a =>
    obtain ⟨s', hs, rfl⟩ := withLocker_eq_ok h
    exact hw.transferOwnership hs
  | recoverERC20 t n =>
    obtain ⟨-, -, hmv⟩ := recoverERC20_eq_ok h
    rwa [hmv.locker]
  | setApprovals =>
    obtain ⟨hl, -, -⟩ := setApprovals_eq_ok h
    rwa [hl]

theorem Reachable.admissible {log : List Event} (h : Reachable log w) :
    Admissible w.locker.config := by
  refine h.induct (P := fun _ w => Admissible w.locker.config) (fun w h₀ => ?_) ?_ ?_
  · rw [h₀.locker]
    exact ⟨show 100 ≤ 500 by decide, show 2 ≤ 3 by decide⟩
  · exact fun _ _ _ _ hw he => he.locker ▸ hw
  · exact fun _ _ _ _ _ _ hw _ hx => hw.exec hx

/-! ## Locked amounts fit in `uint112` -/

theorem inductive_locked_lt :
    Inductive fun _ _ s => ∀ u, (s.ledger.balances u).locked < 2 ^ 112 := by
  have hlock : ∀ {s s' : Storage} {now n : ℕ} {a : Address}, LockDone s s' now a n →
      (∀ u, (s.ledger.balances u).locked < 2 ^ 112) →
      ∀ u, (s'.ledger.balances u).locked < 2 ^ 112 := by
    intro s s' now n a hl hs u
    obtain ⟨-, -, hlt, -, hb, -⟩ := hl.ledger_eq
    rw [hb]
    by_cases hu : u = a
    · subst hu
      simpa using hlt
    · simpa [hu] using hs u
  have hexpire : ∀ {s s' : Storage} {now d : ℕ} {a : Address} {relock : Bool} {x : Expired},
      ExpireDone s s' now a relock d x → (∀ u, (s.ledger.balances u).locked < 2 ^ 112) →
      ∀ u, (s'.ledger.balances u).locked < 2 ^ 112 := by
    intro s s' now d a relock x hx hs u
    rw [hx.ledger]
    by_cases hu : u = a
    · subst hu
      simpa using (Nat.sub_le _ _).trans_lt (hs u)
    · simpa [hu] using hs u
  refine ⟨fun h _ => h, ?_, ?_, fun h _ => h⟩
  · intro _ now s s' hs hch
    cases hch with
    | other hl => rwa [hl]
    | checkpoint hl => rwa [(checkpointEpoch_keeps hl).1]
    | lock hl => exact hlock hl hs
    | expire hx => exact hexpire hx hs
    | relock hx hl => exact hlock hl (hexpire hx hs)
    | @emergencyWithdraw u _ _ hs' =>
      intro v
      rw [hs']
      by_cases hv : v = u
      · subst hv
        simp
      · simpa [hv] using hs v
  · intro _ now s s' u D hs hd
    obtain ⟨-, -, -, _, _, -, -, -, hs'⟩ := delegate_eq_ok hd
    rwa [hs']

theorem Reachable.locked_lt {log : List Event} (h : Reachable log w) (u : Address) :
    (w.locker.ledger.balances u).locked < 2 ^ 112 := by
  refine inductive_locked_lt.reachable (fun now s hs => ?_) h u
  obtain ⟨-, self, owner, st, cc, cs, -, rfl⟩ := hs
  intro u
  show 0 < 2 ^ 112
  norm_num

/-! ## Rewards of kicks -/

/-- The rate of the kick reward for a lock that unlocks at `t`. -/
def kickRate (c : Config) (now _checkDelay t : ℕ) : ℕ :=
  Nat.min (c.kickRewardPerEpoch * ((epochOf (now - _checkDelay) - t) / rewardsDuration + 1))
    denominator

/-- The kick reward for a lock. -/
def rewardOf (c : Config) (now _checkDelay : ℕ) (l : LockedBalance) : ℕ :=
  if 0 < _checkDelay then
    ProRata.portion (kickRate c now _checkDelay l.unlockTime) denominator l.amount
  else 0

/-- The kick reward for locks that are taken one after the other. -/
def rewardsOf (c : Config) (now _checkDelay : ℕ) (locks : List LockedBalance) : ℕ :=
  (locks.map (rewardOf c now _checkDelay)).sum

variable {c : Config} {now d t n r expiry : ℕ}

@[simp] theorem rewardsOf_cons (c : Config) (now d : ℕ) (l : LockedBalance)
    (locks : List LockedBalance) :
    rewardsOf c now d (l :: locks) = rewardOf c now d l + rewardsOf c now d locks := by
  simp [rewardsOf]

theorem kickRate_le (c : Config) (now d t : ℕ) : kickRate c now d t ≤ denominator :=
  Nat.min_le_right _ _

theorem kickRate_le_mul (c : Config) (now d t : ℕ) : kickRate c now d t ≤
    c.kickRewardPerEpoch * ((epochOf (now - d) - t) / rewardsDuration + 1) :=
  Nat.min_le_left _ _

/-- The later a lock unlocks, the lower its rate. -/
theorem kickRate_anti {t' : ℕ} (h : t ≤ t') : kickRate c now d t' ≤ kickRate c now d t := by
  have hquot :
      (epochOf (now - d) - t') / rewardsDuration ≤ (epochOf (now - d) - t) / rewardsDuration :=
    Nat.div_le_div_right (Nat.sub_le_sub_left h _)
  exact min_le_min_right _ (Nat.mul_le_mul_left _ (Nat.succ_le_succ hquot))

theorem rewardOf_le (c : Config) (now d : ℕ) (l : LockedBalance) :
    rewardOf c now d l ≤ l.amount := by
  unfold rewardOf ProRata.portion
  split_ifs
  · refine Nat.div_le_of_le_mul ?_
    exact Nat.mul_le_mul_right _ (kickRate_le _ _ _ _)
  · exact Nat.zero_le _

/-- A kick reward is paid only for a lock that unlocked before the week of the grace period's
start. -/
theorem kickRewardIf_eq_ok (h : kickRewardIf c now d t n = .ok r) :
    r = rewardOf c now d ⟨n, t⟩ ∧ (0 < d → d ≤ now ∧ t ≤ epochOf (now - d)) := by
  unfold kickRewardIf at h
  unfold rewardOf
  split_ifs at h ⊢ with hd
  · unfold kickReward at h
    obtain ⟨x₁, h₁, h⟩ := bind_eq_ok.1 h
    obtain ⟨hle, rfl⟩ := usub_eq_ok.1 h₁
    obtain ⟨x₂, h₂, h⟩ := bind_eq_ok.1 h
    obtain ⟨hle', rfl⟩ := usub_eq_ok.1 h₂
    obtain ⟨x₃, h₃, h⟩ := bind_eq_ok.1 h
    obtain ⟨-, rfl⟩ := uadd_eq_ok.1 h₃
    obtain ⟨x₄, h₄, h⟩ := bind_eq_ok.1 h
    obtain ⟨-, rfl⟩ := umul_eq_ok.1 h₄
    obtain ⟨x₅, h₅, h⟩ := bind_eq_ok.1 h
    obtain ⟨-, rfl⟩ := umul_eq_ok.1 h₅
    cases h
    refine ⟨?_, fun _ => ⟨hle, hle'⟩⟩
    rw [min_eq, Nat.mul_comm n]
    rfl
  · cases h
    exact ⟨rfl, fun hd' => absurd hd' hd⟩

/-- What a kick reward needs. -/
theorem kickRewardIf_of (hrate : c.kickRewardPerEpoch ≤ 500) (hnow : now < 2 ^ 32)
    (hn : n < 2 ^ 112) (hd : 0 < d → d ≤ now ∧ t ≤ epochOf (now - d)) :
    kickRewardIf c now d t n = .ok (rewardOf c now d ⟨n, t⟩) := by
  unfold kickRewardIf rewardOf
  split_ifs with hpos
  · obtain ⟨hle, ht⟩ := hd hpos
    have hepoch : epochOf (now - d) < 2 ^ 32 :=
      ((epochOf_le _).trans (Nat.sub_le _ _)).trans_lt hnow
    have hquot : (epochOf (now - d) - t) / rewardsDuration < 2 ^ 32 :=
      ((Nat.div_le_self _ _).trans (Nat.sub_le _ _)).trans_lt hepoch
    set quot := (epochOf (now - d) - t) / rewardsDuration with hquot'
    have hprod : c.kickRewardPerEpoch * (quot + 1) ≤ 500 * 2 ^ 32 := Nat.mul_le_mul hrate hquot
    have hmul : n * kickRate c now d t ≤ 2 ^ 112 * denominator :=
      Nat.mul_le_mul hn.le (kickRate_le c now d t)
    unfold kickReward
    rw [sub, usub_of hle, ok_bind, sub, usub_of ht, ok_bind, ← hquot', add,
      uadd_of (by omega), ok_bind, mul, umul_of (by omega), ok_bind, min_eq]
    have hrate' : Nat.min (c.kickRewardPerEpoch * (quot + 1)) denominator = kickRate c now d t :=
      rfl
    rw [hrate', mul, umul_of (hmul.trans_lt (by norm_num [denominator])), ok_bind, Nat.mul_comm n]
    rfl
  · rfl

/-- The reward that the loop of `_processExpiredLocks` adds up. -/
theorem expireLoop_rewards :
    ∀ {locks : List LockedBalance} {x x' : Expired}, expireLoop c now d expiry locks x = .ok x' →
      ∃ pre post, locks = pre ++ post ∧ x'.nextUnlockIndex = x.nextUnlockIndex + pre.length ∧
        x'.locked = x.locked + lockSum pre ∧ x'.reward = x.reward + rewardsOf c now d pre ∧
        ∀ l ∈ pre, 0 < d → d ≤ now ∧ l.unlockTime ≤ epochOf (now - d) := by
  intro locks
  induction locks with
  | nil =>
    intro x x' h
    cases h
    exact ⟨[], [], rfl, rfl, rfl, rfl, by simp⟩
  | cons l locks ih =>
    intro x x' h
    unfold expireLoop at h
    split_ifs at h with hl
    · cases h
      exact ⟨[], l :: locks, rfl, rfl, rfl, rfl, by simp⟩
    · obtain ⟨a, ha, h⟩ := bind_eq_ok.1 h
      obtain ⟨-, rfl⟩ := uadd_eq_ok.1 ha
      obtain ⟨r, hr, h⟩ := bind_eq_ok.1 h
      obtain ⟨b, hb, h⟩ := bind_eq_ok.1 h
      obtain ⟨-, rfl⟩ := uadd_eq_ok.1 hb
      obtain ⟨i, hi, h⟩ := bind_eq_ok.1 h
      obtain ⟨-, rfl⟩ := uadd_eq_ok.1 hi
      obtain ⟨rfl, hlate⟩ := kickRewardIf_eq_ok hr
      obtain ⟨pre, post, rfl, hn, hlk, hrw, hpre⟩ := ih h
      dsimp only at hn hlk hrw
      refine ⟨l :: pre, post, rfl, ?_, ?_, ?_, List.forall_mem_cons.2 ⟨hlate, hpre⟩⟩
      · rw [hn, List.length_cons]
        omega
      · rw [hlk, lockSum_cons, Nat.add_assoc]
      · rw [hrw, rewardsOf_cons, ← Nat.add_assoc]

/-- The loop when all locks have expired. -/
theorem expireLoop_of (hrate : c.kickRewardPerEpoch ≤ 500) (hnow : now < 2 ^ 32) :
    ∀ {locks : List LockedBalance} {x : Expired},
      (∀ l ∈ locks, l.unlockTime ≤ expiry ∧ (0 < d → d ≤ now ∧ l.unlockTime ≤ epochOf (now - d))) →
      x.locked + lockSum locks < 2 ^ 112 → x.reward ≤ x.locked →
      x.nextUnlockIndex + locks.length < 2 ^ 32 →
      expireLoop c now d expiry locks x = .ok ⟨x.locked + lockSum locks,
        x.reward + rewardsOf c now d locks, x.nextUnlockIndex + locks.length⟩ := by
  intro locks
  induction locks with
  | nil => exact fun _ _ _ _ => rfl
  | cons l locks ih =>
    intro x hall hsum hle hlen
    obtain ⟨⟨hexp, hlate⟩, hall⟩ := List.forall_mem_cons.1 hall
    rw [lockSum_cons] at hsum
    rw [List.length_cons] at hlen
    have hreward : rewardOf c now d ⟨l.amount, l.unlockTime⟩ ≤ l.amount := rewardOf_le c now d l
    unfold expireLoop
    rw [if_neg (not_lt.2 hexp), AuraMath112.add, uadd_of (by omega), ok_bind,
      kickRewardIf_of hrate hnow (by omega) hlate, ok_bind, add, uadd_of (by omega), ok_bind,
      uadd_of (by omega), ok_bind, ih hall]
    · rw [lockSum_cons, rewardsOf_cons, List.length_cons, ← Nat.add_assoc, ← Nat.add_assoc,
        Nat.add_comm locks.length, ← Nat.add_assoc]
    · dsimp only
      omega
    · dsimp only
      omega
    · dsimp only
      omega

/-! ## What a kick takes -/

/-- The locks of an account that a call removed. -/
def removed (s s' : Storage) (_account : Address) : List LockedBalance :=
  ((s.ledger.userLocks _account).take (s'.ledger.balances _account).nextUnlockIndex).drop
    (s.ledger.balances _account).nextUnlockIndex

/-- The reward is paid for every lock that is removed, or for all of them at the rate of the
last lock. -/
theorem ExpireDone.removed {s s' : Storage} {a : Address} {relock : Bool} {x : Expired}
    (hs : Sums now s) (hx : ExpireDone s s' now a relock d x) :
    x.locked = lockSum (removed s s' a) ∧
      ((x.reward = rewardsOf s.config now d (removed s s' a) ∧
          ∀ l ∈ removed s s' a, 0 < d → d ≤ now ∧ l.unlockTime ≤ epochOf (now - d)) ∨
        ∃ last, (s.ledger.userLocks a).getLast? = some last ∧
          x.reward = rewardOf s.config now d ⟨x.locked, last.unlockTime⟩ ∧
          (0 < d → d ≤ now ∧ last.unlockTime ≤ epochOf (now - d))) := by
  have hnext : (s'.ledger.balances a).nextUnlockIndex = x.nextUnlockIndex := by
    rw [hx.ledger]
    simp
  unfold Locker.removed
  rw [hnext]
  have h := hx.expired
  generalize (if d = 0 ∧ relock = true then now + rewardsDuration else now - d) = expiry at h
  unfold Locker.expired at h
  obtain ⟨last, hlast, h⟩ := bind_eq_ok.1 h
  rw [last_eq_ok] at hlast
  split_ifs at h
  · -- all that is left
    obtain ⟨i, hi, h⟩ := bind_eq_ok.1 h
    obtain ⟨-, rfl⟩ := ucast_eq_ok.1 hi
    obtain ⟨r, hr, h⟩ := bind_eq_ok.1 h
    obtain ⟨rfl, hlate⟩ := kickRewardIf_eq_ok hr
    cases h
    rw [List.take_length]
    exact ⟨hs.locked a, .inr ⟨last, hlast, rfl, hlate⟩⟩
  · obtain ⟨pre, post, hsplit, hn, hlk, hrw, hpre⟩ := expireLoop_rewards h
    dsimp only at hn
    rw [hn, List.drop_take, Nat.add_sub_cancel_left, hsplit, List.take_left]
    rw [Nat.zero_add] at hlk hrw
    exact ⟨hlk, .inl ⟨hrw, hpre⟩⟩

/-- No lock of a sorted list unlocks before the first one. -/
theorem head_le {locks : List LockedBalance}
    (h : locks.Pairwise fun l l' => l.unlockTime < l'.unlockTime) {l oldest : LockedBalance}
    (hl : l ∈ locks) (hhead : locks.head? = some oldest) : oldest.unlockTime ≤ l.unlockTime := by
  cases locks with
  | nil => cases hl
  | cons l' locks =>
    cases hhead
    rcases List.mem_cons.1 hl with rfl | hl
    · exact le_rfl
    · exact ((List.pairwise_cons.1 h).1 l hl).le

theorem removed_sublist (s s' : Storage) (a : Address) :
    (Locker.removed s s' a).Sublist (s.ledger.userLocks a) :=
  (List.drop_sublist _ _).trans (List.take_sublist _ _)

/-- A reward at rates of at most `rate`. -/
theorem rewardsOf_mul_le {rate : ℕ} {locks : List LockedBalance}
    (h : ∀ l ∈ locks, kickRate c now d l.unlockTime ≤ rate) :
    rewardsOf c now d locks * denominator ≤ lockSum locks * rate := by
  induction locks with
  | nil => simp [rewardsOf]
  | cons l locks ih =>
    obtain ⟨hl, h⟩ := List.forall_mem_cons.1 h
    have hrest := ih h
    have hone : rewardOf c now d l * denominator ≤ l.amount * rate := by
      unfold rewardOf
      split_ifs
      · refine (ProRata.portion_mul_le _ _ _).trans ?_
        rw [Nat.mul_comm]
        exact Nat.mul_le_mul_left _ hl
      · simp
    rw [rewardsOf_cons, lockSum_cons, Nat.add_mul, Nat.add_mul]
    exact Nat.add_le_add hone hrest

/-- The grace period of every lock that is removed is over, and the reward is at most what the
rate of the oldest one gives. -/
theorem Dated.kick {first m : ℕ} {s s' : Storage} {a : Address} {x : Expired}
    (h : Dated first m now s) (hs : Sums now s) (hx : ExpireDone s s' now a false d x)
    (hd : 0 < d) :
    (∀ l ∈ removed s s' a, l.unlockTime + d ≤ now) ∧
      ∀ oldest, (removed s s' a).head? = some oldest →
        x.reward * denominator ≤ lockSum (removed s s' a) *
        (s.config.kickRewardPerEpoch *
          ((epochOf (now - d) - oldest.unlockTime) / rewardsDuration + 1)) := by
  have hsub := removed_sublist s s' a
  have hsorted := (h.dated a).sorted.sublist hsub
  obtain ⟨hlk, hreward⟩ := hx.removed hs
  have hrate : ∀ oldest, (removed s s' a).head? = some oldest → ∀ t, oldest.unlockTime ≤ t →
      kickRate s.config now d t ≤ s.config.kickRewardPerEpoch *
        ((epochOf (now - d) - oldest.unlockTime) / rewardsDuration + 1) :=
    fun oldest _ t ht => (kickRate_anti ht).trans (kickRate_le_mul _ _ _ _)
  rcases hreward with ⟨hreward, hlate⟩ | ⟨last, hlast, hreward, hlate⟩
  · refine ⟨fun l hl => ?_, fun oldest ho => ?_⟩
    · obtain ⟨hle, ht⟩ := hlate l hl hd
      have hepoch := epochOf_le (now - d)
      omega
    · rw [hreward]
      exact rewardsOf_mul_le fun l hl => hrate oldest ho _ (head_le hsorted hl ho)
  · obtain ⟨hle, ht⟩ := hlate hd
    refine ⟨fun l hl => ?_, fun oldest ho => ?_⟩
    · have hl := (h.dated a).le_last (hsub.subset hl) hlast
      have hepoch := epochOf_le (now - d)
      omega
    · have hmem := hsub.subset (List.mem_of_head? ho)
      have hall : rewardsOf s.config now d [⟨x.locked, last.unlockTime⟩] * denominator ≤
          lockSum [⟨x.locked, last.unlockTime⟩] * (s.config.kickRewardPerEpoch *
            ((epochOf (now - d) - oldest.unlockTime) / rewardsDuration + 1)) := by
        refine rewardsOf_mul_le fun l hl => ?_
        rw [List.mem_singleton.1 hl]
        exact hrate oldest ho last.unlockTime ((h.dated a).le_last hmem hlast)
      rw [hreward, ← hlk]
      simpa [rewardsOf] using hall

/-- What a kick did : the reward goes to the kicker and the rest to the account. -/
structure KickDone (w w' : World) (kicker a : Address) (s₀ : Storage) (x : Expired) : Prop where
  accrued : Accrued w.locker s₀
  expire : ExpireDone s₀ w'.locker w.now a false
    (rewardsDuration * w.locker.config.kickRewardEpochDelay) x
  le : x.reward ≤ x.locked
  balance : w'.balance w.locker.config.stakingToken =
    move (move (w.balance w.locker.config.stakingToken) w.locker.config.self kicker x.reward)
      w.locker.config.self a (x.locked - x.reward)

theorem kickExpiredLocks_eq_ok {kicker a : Address} (h : kickExpiredLocks w kicker a = .ok w') :
    ∃ s₀ x, KickDone w w' kicker a s₀ x := by
  unfold kickExpiredLocks at h
  obtain ⟨d, hd, h⟩ := bind_eq_ok.1 h
  obtain ⟨-, rfl⟩ := umul_eq_ok.1 hd
  obtain ⟨s₀, s₁, x, w₁, h₀, hx, hle, hl, -, hpaid, hrest⟩ := processExpiredLocks_eq_ok h
  have hacc := updateReward_accrued h₀
  have hconfig : s₁.config = w.locker.config := hx.config.trans hacc.config
  have hrest : w₁.Moved w' s₁.config.stakingToken s₁.config.self a (x.locked - x.reward) := hrest
  rw [hconfig] at hpaid hrest
  have hlocker : w'.locker = s₁ := hrest.locker.trans hl
  have hfirst : w₁.balance w.locker.config.stakingToken =
      move (w.balance w.locker.config.stakingToken) w.locker.config.self kicker x.reward := by
    split_ifs at hpaid with hr
    · rw [hpaid.balance, if_pos rfl]
      rfl
    · rw [hpaid, Nat.eq_zero_of_not_pos hr, move_zero]
      rfl
  refine ⟨s₀, x, hacc, hlocker ▸ hx, hle, ?_⟩
  rw [hrest.balance, if_pos rfl, hfirst]

/-- The ledger after a kick : what the account has locked and the locked supply go down by the
locks that were removed, and the balances of the others stay. -/
theorem KickDone.ledger {kicker a : Address} {s₀ : Storage} {x : Expired}
    (h : KickDone w w' kicker a s₀ x) :
    (w'.locker.ledger.balances a).locked + x.locked = (w.locker.ledger.balances a).locked ∧
      w'.locker.ledger.lockedSupply + x.locked = w.locker.ledger.lockedSupply ∧
      ∀ b, b ≠ a → w'.locker.ledger.balances b = w.locker.ledger.balances b := by
  have hlocked := h.expire.locked_le
  have hsupply := h.expire.supply_le
  rw [h.expire.ledger, ← h.accrued.ledger]
  refine ⟨?_, Nat.sub_add_cancel hsupply, fun b hb => update_of_ne hb _ _⟩
  dsimp only
  rw [update_self]
  exact Nat.sub_add_cancel hlocked

/-- The locks that a kick removed hold what it took. -/
theorem KickDone.lockSum_removed {kicker a : Address} {s₀ : Storage} {x : Expired}
    (h : KickDone w w' kicker a s₀ x) (hs : Sums w.now s₀) :
    removed w.locker w'.locker a = removed s₀ w'.locker a ∧
      x.locked = lockSum (removed w.locker w'.locker a) := by
  have hremoved : removed w.locker w'.locker a = removed s₀ w'.locker a := by
    unfold Locker.removed
    rw [h.accrued.ledger]
  rw [hremoved]
  exact ⟨rfl, (h.expire.removed hs).1⟩

theorem sum_move_pair {A : Type} [DecidableEq A] (f : A → ℕ) {src a b : A} {m n : ℕ}
    (ha : a ≠ src) (hb : b ≠ src) :
    ∑ x ∈ {a, b}, move (move f src a m) src b n x = ∑ x ∈ {a, b}, f x + m + n := by
  by_cases hab : a = b
  · subst hab
    rw [pair_eq_singleton, sum_singleton, sum_singleton, move_dst _ _ ha.symm,
      move_dst _ _ ha.symm]
  · rw [sum_pair hab, sum_pair hab, move_of_ne _ _ ha hab, move_dst _ _ ha.symm,
      move_dst _ _ hb.symm, move_of_ne _ _ hb (Ne.symm hab)]
    omega

/-- Kicks are bounded and conservative. As long as unlock times fit in `uint32`, no lock is
removed before its grace period is over, and the reward is at most what the rate of the oldest
lock that is removed gives. -/
theorem kick_bounded {log : List Event} (h : Reachable log w) (kicker a : Address) :
    w.locker.config.kickRewardPerEpoch ≤ 500 ∧ 2 ≤ w.locker.config.kickRewardEpochDelay ∧
    (∀ s₀ s₁ x, updateReward w.locker w.now a = .ok s₀ →
      expireLocks s₀ w.now a false (rewardsDuration * w.locker.config.kickRewardEpochDelay) =
        .ok (s₁, x) → x.reward ≤ x.locked) ∧
    ∀ w', kickExpiredLocks w kicker a = .ok w' →
      let locks := removed w.locker w'.locker a
      let token := w.locker.config.stakingToken
      let self := w.locker.config.self
      0 < lockSum locks ∧
      (w'.locker.ledger.balances a).locked + lockSum locks =
        (w.locker.ledger.balances a).locked ∧
      w'.locker.ledger.lockedSupply + lockSum locks = w.locker.ledger.lockedSupply ∧
      (∀ b, b ≠ a → w'.locker.ledger.balances b = w.locker.ledger.balances b) ∧
      (kicker ≠ self → a ≠ self → ∑ b ∈ {kicker, a}, w'.balance token b =
        ∑ b ∈ {kicker, a}, w.balance token b + lockSum locks) ∧
      ∃ reward ≤ lockSum locks,
        w'.balance token = move (move (w.balance token) self kicker reward) self a
          (lockSum locks - reward) ∧
        (Fits w.now →
          (∀ l ∈ locks,
            l.unlockTime + rewardsDuration * w.locker.config.kickRewardEpochDelay ≤ w.now) ∧
          ∀ oldest, locks.head? = some oldest → reward * denominator ≤ lockSum locks *
            (w.locker.config.kickRewardPerEpoch *
              ((epochOf (w.now - rewardsDuration * w.locker.config.kickRewardEpochDelay) -
                oldest.unlockTime) / rewardsDuration + 1))) := by
  have hadm := h.admissible
  refine ⟨hadm.rate, hadm.delay,
    fun s₀ s₁ x _ hx => (expired_eq_ok (expireLocks_eq_ok hx).expired).1, fun w' hk => ?_⟩
  obtain ⟨first, hinv⟩ := h.ledgerInv
  obtain ⟨s₀, x, hdone⟩ := kickExpiredLocks_eq_ok hk
  have hinv₀ := hinv.change (hdone.accrued.change w.now)
  obtain ⟨hremoved, hlk⟩ := hdone.lockSum_removed hinv₀.sums
  obtain ⟨hlocked, hsupply, hothers⟩ := hdone.ledger
  dsimp only
  rw [← hlk]
  refine ⟨hdone.expire.locked_pos, hlocked, hsupply, hothers, fun hkicker ha => ?_,
    x.reward, hdone.le, hdone.balance, fun hfit => ?_⟩
  · rw [hdone.balance, sum_move_pair _ hkicker ha, Nat.add_assoc, Nat.add_sub_cancel' hdone.le]
  · obtain ⟨m, hdated⟩ := hinv₀.dated hfit
    have hdelay : 0 < rewardsDuration * w.locker.config.kickRewardEpochDelay :=
      Nat.mul_pos rewardsDuration_pos (by have := hadm.delay; omega)
    have hkick := hdated.kick hinv₀.sums hdone.expire hdelay
    rw [hdone.accrued.config, ← hremoved, ← hlk] at hkick
    exact hkick

/-- The account 1 locks 1000 in week 20, and the account 2 kicks it in week 42. -/
theorem kick_bounded_run : ∃ w w' : World, kickExpiredLocks w 2 1 = .ok w' ∧
    w'.balance 200 2 = 30 ∧ removed w.locker w'.locker 1 = [⟨1000, 37 * rewardsDuration⟩] ∧
    (∀ l ∈ removed w.locker w'.locker 1, l.unlockTime + rewardsDuration * 3 ≤ w.now) ∧
    w'.locker.ledger.lockedSupply + 1000 = w.locker.ledger.lockedSupply := by
  let start := 20 * rewardsDuration
  let log : List Event :=
    [⟨start, 1, .lock 1 1000⟩, ⟨42 * rewardsDuration, 1, .checkpointEpoch⟩]
  let w := (World.initial start).after log
  have h : Reachable log w := ⟨_, World.initial_deployed (by decide), .after (by decide +kernel)⟩
  obtain ⟨-, -, -, hkick⟩ := kick_bounded h 2 1
  obtain ⟨w', hw'⟩ := Tx.exists_ok (x := kickExpiredLocks w 2 1) (by decide +kernel)
  obtain ⟨-, -, hsupply, -, -, _, -, -, hgrace⟩ := hkick w' hw'
  have hvalues : (kickExpiredLocks w 2 1 >>= fun w' =>
      (.ok (w'.balance 200 2, removed w.locker w'.locker 1) : Tx (ℕ × List LockedBalance))) =
        .ok (30, [⟨1000, 37 * rewardsDuration⟩]) := by decide +kernel
  rw [hw', ok_bind, Except.ok.injEq, Prod.mk.injEq] at hvalues
  have hdelay : w.locker.config.kickRewardEpochDelay = 3 := by decide +kernel
  have hlate := (hgrace (by decide +kernel)).1
  rw [hdelay] at hlate
  rw [hvalues.2] at hsupply
  exact ⟨w, w', hw', hvalues.1, hvalues.2, hlate, hsupply⟩

/-- A lock whose unlock time was truncated lets all locks of the account be kicked at once. -/
theorem kick_truncated : ¬∀ {log : List Event} {w : World}, Reachable log w →
    ∀ kicker a w', kickExpiredLocks w kicker a = .ok w' →
      ∀ l ∈ removed w.locker w'.locker a,
        l.unlockTime + rewardsDuration * w.locker.config.kickRewardEpochDelay ≤ w.now := by
  intro h
  let start := 7084 * rewardsDuration
  let log : List Event := [⟨start, 1, .lock 1 5⟩, ⟨7085 * rewardsDuration, 1, .lock 1 7⟩]
  let w := (World.initial start).after log
  have hrun : Reachable log w := ⟨_, World.initial_deployed (by decide), .after (by decide +kernel)⟩
  obtain ⟨w', hw'⟩ := Tx.exists_ok (x := kickExpiredLocks w 2 1) (by decide +kernel)
  have hvalues : (kickExpiredLocks w 2 1 >>= fun w' =>
      (.ok (removed w.locker w'.locker 1) : Tx (List LockedBalance))) =
        .ok [⟨5, 7101 * rewardsDuration⟩, ⟨7, 322304⟩] := by decide +kernel
  rw [hw', ok_bind, Except.ok.injEq] at hvalues
  have hlate := h hrun 2 1 w' hw' ⟨5, 7101 * rewardsDuration⟩ (by rw [hvalues]; simp)
  have hnow : w.now = 7085 * rewardsDuration := by decide +kernel
  rw [hnow] at hlate
  have hlt : 7085 * rewardsDuration < 7101 * rewardsDuration := by decide
  dsimp only at hlate
  omega

end Aura.Locker
