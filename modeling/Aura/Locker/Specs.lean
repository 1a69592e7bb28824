import Aura.Locker.Locks
import Aura.Locker.System

/-!
# AuraLocker : what each function does

One lemma for each function, saying what a successful call did. The invariants of the
later modules cite these and never unfold a function. A function that only touches one
group of the storage is said to leave the others alone, so that an invariant of one group
needs to look at the functions of that group only.
-/

open Evm Function

namespace Aura.Locker

open AuraMath

/-! ## Token movements -/

namespace World

/-- The balance of `a` in `token`. -/
def balance (w : World) (token a : Address) : ℕ :=
  (w.tokens token).balanceOf a

/-- `w'` is `w` after `amount` of `token` moved from `src` to `dst`. -/
structure Moved (w w' : World) (token src dst : Address) (amount : ℕ) : Prop where
  locker : w'.locker = w.locker
  now : w'.now = w.now
  enough : amount ≤ w.balance token src
  balance : ∀ k, w'.balance k = if k = token then move (w.balance token) src dst amount
    else w.balance k

/-- The balances after the ledger of one token is replaced. -/
theorem balance_update (w : World) (token : Address) (t : Erc20 Address) (k : Address) :
    ({ w with tokens := update w.tokens token t } : World).balance k =
      if k = token then t.balanceOf else w.balance k := by
  funext a
  by_cases hk : k = token
  · subst hk
    simp [balance]
  · simp [balance, hk]

theorem safeTransfer_eq_ok {w w' : World} {token dst : Address} {amount : ℕ}
    (h : w.safeTransfer token dst amount = .ok w') :
    w.Moved w' token w.locker.config.self dst amount := by
  unfold safeTransfer at h
  obtain ⟨t, ht, h⟩ := bind_eq_ok.1 h
  cases h
  obtain ⟨-, -, hle, hb, -, -⟩ := Erc20.transfer_eq_ok ht
  refine ⟨rfl, rfl, hle, fun k => ?_⟩
  rw [balance_update, hb]
  rfl

theorem safeTransferFrom_eq_ok {w w' : World} {token src : Address} {amount : ℕ}
    (h : w.safeTransferFrom token src amount = .ok w') :
    w.Moved w' token src w.locker.config.self amount := by
  unfold safeTransferFrom at h
  obtain ⟨t, ht, h⟩ := bind_eq_ok.1 h
  cases h
  obtain ⟨-, hle, hb, -⟩ := Erc20.transferFrom_eq_ok ht
  refine ⟨rfl, rfl, hle, fun k => ?_⟩
  rw [balance_update, hb]
  rfl

theorem safeApprove_eq_ok {w w' : World} {token spender : Address} {amount : ℕ}
    (h : w.safeApprove token spender amount = .ok w') :
    w'.locker = w.locker ∧ w'.now = w.now ∧ ∀ k, w'.balance k = w.balance k := by
  unfold safeApprove at h
  obtain ⟨-, h⟩ := require_bind_eq_ok.1 h
  obtain ⟨t, ht, h⟩ := bind_eq_ok.1 h
  cases h
  refine ⟨rfl, rfl, fun k => ?_⟩
  rw [balance_update, (Erc20.approve_eq_ok ht).1]
  split_ifs with hk
  · subst hk
    rfl
  · rfl

/-- Nothing moves in another token. -/
theorem Moved.balance_of_ne {w w' : World} {token src dst k : Address} {amount : ℕ}
    (h : w.Moved w' token src dst amount) (hk : k ≠ token) : w'.balance k = w.balance k := by
  rw [h.balance, if_neg hk]

/-- The sender of a movement loses at most the amount. -/
theorem Moved.le_balance_src {w w' : World} {token src dst : Address} {amount : ℕ}
    (h : w.Moved w' token src dst amount) (k : Address) :
    w.balance k src ≤ w'.balance k src + if k = token then amount else 0 := by
  rw [h.balance]
  have := h.enough
  by_cases hk : k = token
  · subst hk
    by_cases hd : src = dst
    · subst hd
      simp [move_self _ _ this]
    · simp [move_src _ _ hd]
      omega
  · simp [hk]

/-- The receiver of a movement from another account gains the amount. -/
theorem Moved.balance_dst {w w' : World} {token src dst : Address} {amount : ℕ}
    (h : w.Moved w' token src dst amount) (hne : src ≠ dst) (k : Address) :
    w'.balance k dst = w.balance k dst + if k = token then amount else 0 := by
  rw [h.balance]
  by_cases hk : k = token
  · subst hk
    simp [move_dst _ _ hne]
  · simp [hk]

end World

/-! ## Rewards -/

/-- `s'` differs from `s` in its rewards only, and not in the list of reward tokens nor in
the queued rewards and distributors. -/
structure Accrued (s s' : Storage) : Prop where
  ledger : s'.ledger = s.ledger
  voting : s'.voting = s.voting
  config : s'.config = s.config
  rewardTokens : s'.rewards.rewardTokens = s.rewards.rewardTokens
  queuedRewards : s'.rewards.queuedRewards = s.rewards.queuedRewards
  rewardDistributors : s'.rewards.rewardDistributors = s.rewards.rewardDistributors

theorem Accrued.refl (s : Storage) : Accrued s s :=
  ⟨rfl, rfl, rfl, rfl, rfl, rfl⟩

theorem Accrued.trans {s₁ s₂ s₃ : Storage} (h₁ : Accrued s₁ s₂) (h₂ : Accrued s₂ s₃) :
    Accrued s₁ s₃ :=
  ⟨h₂.ledger.trans h₁.ledger, h₂.voting.trans h₁.voting, h₂.config.trans h₁.config,
    h₂.rewardTokens.trans h₁.rewardTokens, h₂.queuedRewards.trans h₁.queuedRewards,
    h₂.rewardDistributors.trans h₁.rewardDistributors⟩

theorem updateRewardToken_accrued {s s' : Storage} {now : ℕ} {a token : Address}
    (h : updateRewardToken s now a token = .ok s') : Accrued s s' := by
  unfold updateRewardToken at h
  obtain ⟨x, -, h⟩ := bind_eq_ok.1 h
  obtain ⟨y, -, h⟩ := bind_eq_ok.1 h
  obtain ⟨z, -, h⟩ := bind_eq_ok.1 h
  dsimp only at h
  split_ifs at h with ha
  · obtain ⟨p, -, h⟩ := bind_eq_ok.1 h
    obtain ⟨q, -, h⟩ := bind_eq_ok.1 h
    obtain ⟨r, -, h⟩ := bind_eq_ok.1 h
    cases h
    exact ⟨rfl, rfl, rfl, rfl, rfl, rfl⟩
  · cases h
    exact ⟨rfl, rfl, rfl, rfl, rfl, rfl⟩

theorem updateReward_accrued {s s' : Storage} {now : ℕ} {a : Address}
    (h : updateReward s now a = .ok s') : Accrued s s' :=
  foldlM_keeps (Accrued s)
    (fun _ _ _ _ hs ht => hs.trans (updateRewardToken_accrued ht)) (.refl s) h

/-! ## Epochs -/

/-- `_checkpointEpoch` only extends the list of epochs. -/
theorem checkpointEpoch_eq_ok {l l' : Ledger} {now : ℕ} (h : _checkpointEpoch l now = .ok l') :
    ∃ es, l' = { l with epochs := es } := by
  unfold _checkpointEpoch at h
  obtain ⟨e, -, h⟩ := bind_eq_ok.1 h
  split_ifs at h
  · obtain ⟨r, -, h⟩ := bind_eq_ok.1 h
    cases h
    exact ⟨_, rfl⟩
  · cases h
    exact ⟨_, rfl⟩

/-! ## Locking -/

/-- What `_lock` did. -/
structure LockDone (s s' : Storage) (now : ℕ) (a : Address) (n : ℕ) : Prop where
  amount_pos : 0 < n
  amount_lt : n < 2 ^ 112
  notShutdown : s.config.isShutdown = false
  rewards : s'.rewards = s.rewards
  config : s'.config = s.config
  ledger : ∃ l, _checkpointEpoch s.ledger now = .ok l ∧
    lockLedger l a n n (epochOf now + lockDuration) = .ok s'.ledger
  voting : lockVotes s.voting now a n (epochOf now + lockDuration) = .ok s'.voting

theorem lock_eq_ok {s s' : Storage} {now n : ℕ} {sender a : Address}
    (h : _lock s now sender a n = .ok s') : LockDone s s' now a n := by
  unfold _lock at h
  obtain ⟨-, -, h⟩ := bind_eq_ok.1 h
  obtain ⟨hn, h⟩ := require_bind_eq_ok.1 h
  obtain ⟨hsd, h⟩ := require_bind_eq_ok.1 h
  obtain ⟨l, hl, h⟩ := bind_eq_ok.1 h
  obtain ⟨m, hm, h⟩ := bind_eq_ok.1 h
  obtain ⟨hlt, rfl⟩ := ucast_eq_ok.1 hm
  obtain ⟨t, ht, h⟩ := bind_eq_ok.1 h
  obtain ⟨-, rfl⟩ := uadd_eq_ok.1 ht
  obtain ⟨l', hl', h⟩ := bind_eq_ok.1 h
  obtain ⟨v, hv, h⟩ := bind_eq_ok.1 h
  cases h
  exact ⟨hn, hlt, hsd, rfl, rfl, ⟨l, hl, hl'⟩, hv⟩

/-- What `lockLedger` did. -/
theorem lockLedger_eq_ok {l l' : Ledger} {a : Address} {n T : ℕ}
    (h : lockLedger l a n n T = .ok l') :
    ∃ locks e, addLock (l.userLocks a) n T = .ok locks ∧ l.epochs.getLast? = some e ∧
      (l.balances a).locked + n < 2 ^ 112 ∧ e.supply + n < 2 ^ 224 ∧
      l' = { lockedSupply := l.lockedSupply + n
             epochs := l.epochs.dropLast ++ [{ e with supply := e.supply + n }]
             balances := update l.balances a
               { l.balances a with locked := (l.balances a).locked + n }
             userLocks := update l.userLocks a locks } := by
  unfold lockLedger at h
  obtain ⟨x, hx, h⟩ := bind_eq_ok.1 h
  obtain ⟨hx', rfl⟩ := uadd_eq_ok.1 hx
  obtain ⟨y, hy, h⟩ := bind_eq_ok.1 h
  obtain ⟨-, rfl⟩ := uadd_eq_ok.1 hy
  obtain ⟨locks, hlocks, h⟩ := bind_eq_ok.1 h
  obtain ⟨e, he, h⟩ := bind_eq_ok.1 h
  obtain ⟨z, hz, h⟩ := bind_eq_ok.1 h
  obtain ⟨hz', rfl⟩ := uadd_eq_ok.1 hz
  cases h
  exact ⟨locks, e, hlocks, last_eq_ok.1 he, hx', hz', rfl⟩

/-- What `_lock` did to balances and lock records. -/
theorem LockDone.ledger_eq {s s' : Storage} {now n : ℕ} {a : Address}
    (h : LockDone s s' now a n) :
    ∃ locks, addLock (s.ledger.userLocks a) n (epochOf now + lockDuration) = .ok locks ∧
      (s.ledger.balances a).locked + n < 2 ^ 112 ∧
      s'.ledger.lockedSupply = s.ledger.lockedSupply + n ∧
      s'.ledger.balances = update s.ledger.balances a
        { s.ledger.balances a with locked := (s.ledger.balances a).locked + n } ∧
      s'.ledger.userLocks = update s.ledger.userLocks a locks := by
  obtain ⟨l, hck, hlk⟩ := h.ledger
  obtain ⟨es, rfl⟩ := checkpointEpoch_eq_ok hck
  obtain ⟨locks, e, hadd, -, hlt, -, hs'⟩ := lockLedger_eq_ok hlk
  exact ⟨locks, hadd, hlt, by rw [hs'], by rw [hs'], by rw [hs']⟩

/-! ## Expiry -/

/-- A kick reward is a fraction of the amount. -/
theorem kickReward_le {c : Config} {now d t n r : ℕ} (h : kickReward c now d t n = .ok r) :
    r ≤ n := by
  unfold kickReward at h
  obtain ⟨x₁, -, h⟩ := bind_eq_ok.1 h
  obtain ⟨x₂, -, h⟩ := bind_eq_ok.1 h
  obtain ⟨x₃, -, h⟩ := bind_eq_ok.1 h
  obtain ⟨x₄, -, h⟩ := bind_eq_ok.1 h
  obtain ⟨x₅, h₅, h⟩ := bind_eq_ok.1 h
  obtain ⟨-, rfl⟩ := umul_eq_ok.1 h₅
  cases h
  rw [min_eq]
  calc n * Nat.min x₄ denominator / denominator
      ≤ n * denominator / denominator := by gcongr; exact Nat.min_le_right _ _
    _ = n := Nat.mul_div_cancel n (by decide)

/-- Without a delay there is no kick reward. -/
theorem kickRewardIf_zero {c : Config} {now t n r : ℕ} (h : kickRewardIf c now 0 t n = .ok r) :
    r = 0 := by
  cases h
  rfl

theorem kickRewardIf_le {c : Config} {now d t n r : ℕ} (h : kickRewardIf c now d t n = .ok r) :
    r ≤ n := by
  unfold kickRewardIf at h
  split_ifs at h
  · exact kickReward_le h
  · cases h
    exact Nat.zero_le n

/-- What the loop of `_processExpiredLocks` took from `locks` : a prefix of records that
have all expired, up to the first that has not. -/
theorem expireLoop_eq_ok {c : Config} {now d expiry : ℕ} :
    ∀ {locks : List LockedBalance} {x x' : Expired},
      expireLoop c now d expiry locks x = .ok x' →
      ∃ pre post, locks = pre ++ post ∧ x'.nextUnlockIndex = x.nextUnlockIndex + pre.length ∧
        x'.locked = x.locked + lockSum pre ∧ x'.reward ≤ x.reward + lockSum pre ∧
        (d = 0 → x'.reward = x.reward) ∧
        (∀ l ∈ pre, l.unlockTime ≤ expiry) ∧ ∀ l, post.head? = some l → expiry < l.unlockTime
  | [], x, x', h => by
    cases h
    exact ⟨[], [], rfl, rfl, rfl, le_rfl, fun _ => rfl, by simp, by simp⟩
  | l :: locks, x, x', h => by
    unfold expireLoop at h
    split_ifs at h with hl
    · cases h
      refine ⟨[], l :: locks, rfl, rfl, rfl, le_rfl, fun _ => rfl, by simp, ?_⟩
      rintro l' h'
      cases h'
      exact hl
    · obtain ⟨a, ha, h⟩ := bind_eq_ok.1 h
      obtain ⟨-, rfl⟩ := uadd_eq_ok.1 ha
      obtain ⟨r, hr, h⟩ := bind_eq_ok.1 h
      obtain ⟨rw, hrw, h⟩ := bind_eq_ok.1 h
      obtain ⟨-, rfl⟩ := uadd_eq_ok.1 hrw
      obtain ⟨i, hi, h⟩ := bind_eq_ok.1 h
      obtain ⟨-, rfl⟩ := uadd_eq_ok.1 hi
      have hle := kickRewardIf_le hr
      obtain ⟨pre, post, rfl, hn, hlk, hrw, hzero, hpre, hpost⟩ := expireLoop_eq_ok h
      refine ⟨l :: pre, post, rfl, ?_, ?_, ?_, fun hd => ?_, ?_, hpost⟩
      · simp only [hn, List.length_cons]
        omega
      · simp only [hlk, lockSum_cons]
        omega
      · simp only [lockSum_cons] at hrw ⊢
        omega
      · subst hd
        rw [hzero rfl, kickRewardIf_zero hr, Nat.add_zero]
      · rintro l' hl'
        rcases List.mem_cons.1 hl' with rfl | hl'
        · exact not_lt.1 hl
        · exact hpre l' hl'

/-- What `_processExpiredLocks` takes : everything that is left, after a shutdown or
because the last record has expired, or a prefix of what is left that has expired. -/
theorem expired_eq_ok {s : Storage} {now d expiry : ℕ} {a : Address} {x : Expired}
    (h : expired s now a d expiry = .ok x) :
    x.reward ≤ x.locked ∧ (d = 0 → x.reward = 0) ∧
      ((x.locked = (s.ledger.balances a).locked ∧
          x.nextUnlockIndex = (s.ledger.userLocks a).length ∧
          (s.config.isShutdown = true ∨
            ∀ l, (s.ledger.userLocks a).getLast? = some l → l.unlockTime ≤ expiry)) ∨
        (s.config.isShutdown = false ∧ ∃ pre post,
          (s.ledger.userLocks a).drop (s.ledger.balances a).nextUnlockIndex = pre ++ post ∧
          x.nextUnlockIndex = (s.ledger.balances a).nextUnlockIndex + pre.length ∧
          x.locked = lockSum pre ∧ (∀ l ∈ pre, l.unlockTime ≤ expiry) ∧
          ∀ l, post.head? = some l → expiry < l.unlockTime)) := by
  unfold expired at h
  obtain ⟨lst, hlst, h⟩ := bind_eq_ok.1 h
  rw [last_eq_ok] at hlst
  split_ifs at h with hall
  · obtain ⟨i, hi, h⟩ := bind_eq_ok.1 h
    obtain ⟨-, rfl⟩ := ucast_eq_ok.1 hi
    obtain ⟨r, hr, h⟩ := bind_eq_ok.1 h
    cases h
    refine ⟨kickRewardIf_le hr, fun hd => kickRewardIf_zero (hd ▸ hr),
      .inl ⟨rfl, rfl, hall.imp id fun hle l hl => ?_⟩⟩
    rw [hlst] at hl
    cases hl
    exact hle
  · obtain ⟨pre, post, hsplit, hn, hlk, hrw, hzero, hpre, hpost⟩ := expireLoop_eq_ok h
    simp only [Nat.zero_add] at hlk hrw
    refine ⟨by omega, hzero, .inr ⟨?_, pre, post, hsplit, hn, hlk, hpre, hpost⟩⟩
    cases hsd : s.config.isShutdown with
    | false => rfl
    | true => exact absurd (.inl hsd) hall

/-- What the storage part of `_processExpiredLocks` did. -/
structure ExpireDone (s s' : Storage) (now : ℕ) (a : Address) (relock : Bool) (d : ℕ)
    (x : Expired) : Prop where
  locked_pos : 0 < x.locked
  locked_le : x.locked ≤ (s.ledger.balances a).locked
  supply_le : x.locked ≤ s.ledger.lockedSupply
  rewards : s'.rewards = s.rewards
  config : s'.config = s.config
  expired : expired s now a d
    (if d = 0 ∧ relock = true then now + rewardsDuration else now - d) = .ok x
  ledger : s'.ledger = { s.ledger with
    lockedSupply := s.ledger.lockedSupply - x.locked
    balances := update s.ledger.balances a
      ⟨(s.ledger.balances a).locked - x.locked, x.nextUnlockIndex⟩ }
  voting : _checkpointDelegate s.voting now (s.voting.delegates a) 0 0 = .ok s'.voting

theorem expireLocks_eq_ok {s s' : Storage} {now d : ℕ} {a : Address} {relock : Bool} {x : Expired}
    (h : expireLocks s now a relock d = .ok (s', x)) : ExpireDone s s' now a relock d x := by
  unfold expireLocks at h
  obtain ⟨t, ht, h⟩ := bind_eq_ok.1 h
  obtain ⟨-, h⟩ := require_bind_eq_ok.1 h
  obtain ⟨y, hy, h⟩ := bind_eq_ok.1 h
  obtain ⟨hpos, h⟩ := require_bind_eq_ok.1 h
  obtain ⟨l, hl, h⟩ := bind_eq_ok.1 h
  obtain ⟨v, hv, h⟩ := bind_eq_ok.1 h
  cases h
  have ht' : t = if d = 0 ∧ relock = true then now + rewardsDuration else now - d := by
    unfold expiryTimeOf at ht
    split_ifs at ht ⊢
    · exact (uadd_eq_ok.1 ht).2
    · exact (usub_eq_ok.1 ht).2
  unfold unlock at hl
  obtain ⟨p, hp, hl⟩ := bind_eq_ok.1 hl
  obtain ⟨hp', rfl⟩ := usub_eq_ok.1 hp
  obtain ⟨q, hq, hl⟩ := bind_eq_ok.1 hl
  obtain ⟨hq', rfl⟩ := usub_eq_ok.1 hq
  cases hl
  exact ⟨hpos, hp', hq', rfl, rfl, ht' ▸ hy, rfl, hv⟩

/-- What `sendIncentive` did. -/
theorem sendIncentive_eq_ok {w w' : World} {ra : Address} {reward locked n : ℕ}
    (h : sendIncentive w ra reward locked = .ok (w', n)) :
    n = locked - reward ∧ w'.locker = w.locker ∧ w'.now = w.now ∧
      if 0 < reward then w.Moved w' w.locker.config.stakingToken w.locker.config.self ra reward
      else w' = w := by
  unfold sendIncentive at h
  split_ifs at h ⊢ with hr
  · obtain ⟨r, hr', h⟩ := bind_eq_ok.1 h
    obtain ⟨-, rfl⟩ := ucast_eq_ok.1 hr'
    obtain ⟨m, hm, h⟩ := bind_eq_ok.1 h
    obtain ⟨-, rfl⟩ := usub_eq_ok.1 hm
    obtain ⟨w₁, hw₁, h⟩ := bind_eq_ok.1 h
    cases h
    have hmv := World.safeTransfer_eq_ok hw₁
    exact ⟨rfl, hmv.locker, hmv.now, hmv⟩
  · cases h
    exact ⟨by omega, rfl, rfl, rfl⟩

/-- What `_processExpiredLocks` did : rewards accrue, locks expire, the kick reward is paid
and the rest is locked again or returned. -/
theorem processExpiredLocks_eq_ok {w w' : World} {sender a ra : Address} {relock : Bool} {d : ℕ}
    (h : _processExpiredLocks w sender a relock ra d = .ok w') :
    ∃ s₀ s₁ x w₁, updateReward w.locker w.now a = .ok s₀ ∧
      ExpireDone s₀ s₁ w.now a relock d x ∧ x.reward ≤ x.locked ∧
      w₁.locker = s₁ ∧ w₁.now = w.now ∧
      (if 0 < x.reward then
        ({ w with locker := s₁ } : World).Moved w₁ s₁.config.stakingToken s₁.config.self ra x.reward
        else w₁ = { w with locker := s₁ }) ∧
      if relock = true then
        w'.tokens = w₁.tokens ∧ w'.now = w.now ∧
          LockDone s₁ w'.locker w.now a (x.locked - x.reward)
      else w₁.Moved w' s₁.config.stakingToken s₁.config.self a (x.locked - x.reward) := by
  unfold _processExpiredLocks at h
  obtain ⟨s₀, h₀, h⟩ := bind_eq_ok.1 h
  obtain ⟨⟨s₁, x⟩, h₁, h⟩ := bind_eq_ok.1 h
  have hx := expireLocks_eq_ok h₁
  have hle := (expired_eq_ok hx.expired).1
  dsimp only at h
  obtain ⟨⟨w₁, n⟩, h₂, h⟩ := bind_eq_ok.1 h
  obtain ⟨rfl, hlk, hnow, hmv⟩ := sendIncentive_eq_ok h₂
  dsimp only at hlk hnow hmv
  refine ⟨s₀, s₁, x, w₁, h₀, hx, hle, hlk, hnow, hmv, ?_⟩
  dsimp only at h
  split_ifs at h ⊢ with hrel
  · obtain ⟨s₂, hs₂, h⟩ := bind_eq_ok.1 h
    cases h
    rw [hlk, hnow] at hs₂
    exact ⟨rfl, hnow, lock_eq_ok hs₂⟩
  · have := World.safeTransfer_eq_ok h
    rwa [hlk] at this

/-- What `lock` did. -/
theorem lockCall_eq_ok {w w' : World} {sender a : Address} {n : ℕ}
    (h : lock w sender a n = .ok w') :
    ∃ s₀ w₁, updateReward w.locker w.now a = .ok s₀ ∧
      ({ w with locker := s₀ } : World).Moved w₁ s₀.config.stakingToken sender s₀.config.self n ∧
      w'.tokens = w₁.tokens ∧ w'.now = w.now ∧ LockDone s₀ w'.locker w.now a n := by
  unfold lock at h
  obtain ⟨s₀, h₀, h⟩ := bind_eq_ok.1 h
  obtain ⟨w₁, h₁, h⟩ := bind_eq_ok.1 h
  obtain ⟨s, hs, h⟩ := bind_eq_ok.1 h
  cases h
  have hmv := World.safeTransferFrom_eq_ok h₁
  have hl : w₁.locker = s₀ := hmv.locker
  have hn : w₁.now = w.now := hmv.now
  rw [hl, hn] at hs
  exact ⟨s₀, w₁, h₀, hmv, rfl, hn, lock_eq_ok hs⟩

/-- What `emergencyWithdraw` did. -/
theorem emergencyWithdraw_eq_ok {w w' : World} {u : Address}
    (h : emergencyWithdraw w u = .ok w') :
    w.locker.config.isShutdown = true ∧ 0 < (w.locker.ledger.balances u).locked ∧
      (w.locker.ledger.balances u).locked ≤ w.locker.ledger.lockedSupply ∧
      ∃ s₁ : Storage, s₁ = { w.locker with
        ledger := { w.locker.ledger with
          lockedSupply := w.locker.ledger.lockedSupply - (w.locker.ledger.balances u).locked
          balances := update w.locker.ledger.balances u
            ⟨0, (w.locker.ledger.userLocks u).length⟩ } } ∧
      ({ w with locker := s₁ } : World).Moved w' w.locker.config.stakingToken w.locker.config.self u
        (w.locker.ledger.balances u).locked := by
  unfold emergencyWithdraw at h
  obtain ⟨hsd, h⟩ := require_bind_eq_ok.1 h
  obtain ⟨hpos, h⟩ := require_bind_eq_ok.1 h
  obtain ⟨i, hi, h⟩ := bind_eq_ok.1 h
  obtain ⟨-, rfl⟩ := ucast_eq_ok.1 hi
  obtain ⟨q, hq, h⟩ := bind_eq_ok.1 h
  obtain ⟨hle, rfl⟩ := usub_eq_ok.1 hq
  exact ⟨hsd, hpos, hle, _, rfl, World.safeTransfer_eq_ok h⟩

/-! ## Delegating -/

theorem upcomingEpoch_eq_ok {now E : ℕ} (h : upcomingEpoch now = .ok E) :
    E = epochOf now + rewardsDuration := by
  obtain ⟨t, ht, h⟩ := bind_eq_ok.1 h
  obtain ⟨-, rfl⟩ := uadd_eq_ok.1 ht
  cases h
  simp only [epochOf, rewardsDuration]
  omega

/-- What `delegate` did : future unlocks move and both delegatees are checkpointed. -/
theorem delegate_eq_ok {s s' : Storage} {now : ℕ} {u D : Address}
    (h : delegate s now u D = .ok s') :
    s.ledger.userLocks u ≠ [] ∧ D ≠ 0 ∧ D ≠ s.voting.delegates u ∧
      ∃ moved v₁, moveUnlocks (s.voting.delegates u) D (epochOf now + rewardsDuration)
          (s.ledger.userLocks u).reverse s.voting.delegateeUnlocks 0 = .ok moved ∧
        _checkpointDelegate { s.voting with
            delegates := update s.voting.delegates u D
            delegateeUnlocks := moved.1 } now (s.voting.delegates u) 0 moved.2 = .ok v₁ ∧
        _checkpointDelegate v₁ now D moved.2 0 = .ok s'.voting ∧
        s' = { s with voting := s'.voting } := by
  unfold delegate at h
  obtain ⟨hlen, h⟩ := require_bind_eq_ok.1 h
  obtain ⟨hD, h⟩ := require_bind_eq_ok.1 h
  obtain ⟨hne, h⟩ := require_bind_eq_ok.1 h
  obtain ⟨E, hE, h⟩ := bind_eq_ok.1 h
  obtain rfl := upcomingEpoch_eq_ok hE
  obtain ⟨moved, hmoved, h⟩ := bind_eq_ok.1 h
  obtain ⟨v₁, h₁, h⟩ := bind_eq_ok.1 h
  obtain ⟨v₂, h₂, h⟩ := bind_eq_ok.1 h
  cases h
  exact ⟨List.ne_nil_of_length_pos hlen, hD, hne, moved, v₁, hmoved, h₁, h₂, rfl⟩

/-! ## Paying and queueing rewards -/

/-- What one round of `getReward` did. -/
theorem payReward_eq_ok {w w' : World} {sender a token : Address} {stake : Bool}
    (h : payReward w sender a stake token = .ok w') :
    w' = w ∨ ∃ dst, ({ w with locker := clearRewards w.locker a token } : World).Moved w' token
      w.locker.config.self dst (w.locker.rewards.userData a token).rewards := by
  unfold payReward at h
  dsimp only at h
  split_ifs at h with hr hs
  · exact .inr ⟨_, World.safeTransfer_eq_ok h⟩
  · exact .inr ⟨_, World.safeTransfer_eq_ok h⟩
  · cases h
    exact .inl rfl

theorem payReward_rewardTokens {w w' : World} {sender a token : Address} {stake : Bool}
    (h : payReward w sender a stake token = .ok w') :
    w'.locker.rewards.rewardTokens = w.locker.rewards.rewardTokens := by
  rcases payReward_eq_ok h with rfl | ⟨dst, hmv⟩
  · rfl
  · rw [hmv.locker]
    rfl

/-- What both variants of `getReward` did : rewards accrue and some are paid. -/
theorem getReward_keeps {w w' : World} {sender a : Address} {stake : Bool} {P : World → Prop}
    (hacc : ∀ s, updateReward w.locker w.now a = .ok s → P { w with locker := s })
    (hpay : ∀ w₁ w₂ token, token ∈ w.locker.rewards.rewardTokens → P w₁ →
      payReward w₁ sender a stake token = .ok w₂ → P w₂)
    (h : getReward w sender a stake = .ok w') : P w' := by
  unfold getReward at h
  obtain ⟨s, hs, h⟩ := bind_eq_ok.1 h
  have ht := (updateReward_accrued hs).rewardTokens
  exact foldlM_keeps P (fun token hm w₁ w₂ hP hw => hpay w₁ w₂ token (ht ▸ hm) hP hw) (hacc s hs) h

theorem getRewardSkip_keeps {w w' : World} {sender a : Address} {skip : List Bool}
    {P : World → Prop}
    (hacc : ∀ s, updateReward w.locker w.now a = .ok s → P { w with locker := s })
    (hpay : ∀ w₁ w₂ token, token ∈ w.locker.rewards.rewardTokens → P w₁ →
      payReward w₁ sender a false token = .ok w₂ → P w₂)
    (h : getRewardSkip w sender a skip = .ok w') : P w' := by
  unfold getRewardSkip at h
  obtain ⟨s, hs, h⟩ := bind_eq_ok.1 h
  obtain ⟨-, h⟩ := require_bind_eq_ok.1 h
  have ht := (updateReward_accrued hs).rewardTokens
  refine foldlM_keeps P (fun p hm w₁ w₂ hP hw => ?_) (hacc s hs) h
  split_ifs at hw
  · cases hw
    exact hP
  · exact hpay w₁ w₂ p.1 (ht ▸ (List.of_mem_zip hm).1) hP hw

/-- The data of a token whose period starts now. -/
def newPeriod (r : RewardData) (now rate : ℕ) : RewardData :=
  { r with rewardRate := rate, lastUpdateTime := now, periodFinish := now + rewardsDuration }

/-- What `_notifyReward` did : rewards accrue and a new period starts at the new rate. -/
theorem notifyReward_eq_ok {s s' : Storage} {now n : ℕ} {token : Address}
    (h : _notifyReward s now token n = .ok s') :
    ∃ s₀ rate, updateReward s now 0 = .ok s₀ ∧
      newRewardRate (s₀.rewards.rewardData token) now n = .ok rate ∧ rate < 10 ^ 20 ∧
      10 ^ 20 ≤ s₀.ledger.lockedSupply ∧ now + rewardsDuration < 2 ^ 32 ∧
      s' = setRewardData s₀ token (newPeriod (s₀.rewards.rewardData token) now rate) := by
  unfold _notifyReward at h
  obtain ⟨s₀, h₀, h⟩ := bind_eq_ok.1 h
  obtain ⟨rate, hrate, h⟩ := bind_eq_ok.1 h
  obtain ⟨hlt, h⟩ := require_bind_eq_ok.1 h
  obtain ⟨hsup, h⟩ := require_bind_eq_ok.1 h
  obtain ⟨t, ht, h⟩ := bind_eq_ok.1 h
  obtain ⟨-, rfl⟩ := ucast_eq_ok.1 ht
  obtain ⟨f, hf, h⟩ := bind_eq_ok.1 h
  obtain ⟨-, rfl⟩ := uadd_eq_ok.1 hf
  obtain ⟨p, hp, h⟩ := bind_eq_ok.1 h
  obtain ⟨hfin, rfl⟩ := ucast_eq_ok.1 hp
  cases h
  exact ⟨s₀, rate, h₀, hrate, hlt, hsup, hfin, rfl⟩

/-- What `queueRewards` did : everything that is queued is notified, or stays queued. -/
theorem queueRewards_eq_ok {s s' : Storage} {now n : ℕ} {token : Address}
    (h : queueRewards s now token n = .ok s') :
    n + s.rewards.queuedRewards token < 10 ^ 25 ∧
      ((∃ s₁, _notifyReward s now token (n + s.rewards.queuedRewards token) = .ok s₁ ∧
          s' = setQueued s₁ token 0) ∨
        now < (s.rewards.rewardData token).periodFinish ∧
          s' = setQueued s token (n + s.rewards.queuedRewards token)) := by
  unfold queueRewards at h
  obtain ⟨r, hr, h⟩ := bind_eq_ok.1 h
  obtain ⟨-, rfl⟩ := uadd_eq_ok.1 hr
  obtain ⟨hlt, h⟩ := require_bind_eq_ok.1 h
  refine ⟨hlt, ?_⟩
  split_ifs at h with hfin
  · obtain ⟨s₁, h₁, h⟩ := bind_eq_ok.1 h
    cases h
    exact .inl ⟨s₁, h₁, rfl⟩
  · obtain ⟨x₁, -, h⟩ := bind_eq_ok.1 h
    obtain ⟨x₂, -, h⟩ := bind_eq_ok.1 h
    obtain ⟨x₃, -, h⟩ := bind_eq_ok.1 h
    obtain ⟨x₄, -, h⟩ := bind_eq_ok.1 h
    obtain ⟨x₅, -, h⟩ := bind_eq_ok.1 h
    obtain ⟨x₆, -, h⟩ := bind_eq_ok.1 h
    split_ifs at h
    · obtain ⟨s₁, h₁, h⟩ := bind_eq_ok.1 h
      cases h
      exact .inl ⟨s₁, h₁, rfl⟩
    · cases h
      exact .inr ⟨not_le.1 hfin, rfl⟩

/-- Queueing rewards touches rewards only, and registers nothing. -/
theorem queueRewards_keeps {s s' : Storage} {now n : ℕ} {token : Address}
    (h : queueRewards s now token n = .ok s') :
    s'.ledger = s.ledger ∧ s'.voting = s.voting ∧ s'.config = s.config ∧
      s'.rewards.rewardTokens = s.rewards.rewardTokens ∧
      s'.rewards.rewardDistributors = s.rewards.rewardDistributors := by
  obtain ⟨-, ⟨s₁, h₁, rfl⟩ | ⟨-, rfl⟩⟩ := queueRewards_eq_ok h
  · obtain ⟨s₀, rate, h₀, -, -, -, -, rfl⟩ := notifyReward_eq_ok h₁
    have ha := updateReward_accrued h₀
    exact ⟨ha.ledger, ha.voting, ha.config, ha.rewardTokens, ha.rewardDistributors⟩
  · exact ⟨rfl, rfl, rfl, rfl, rfl⟩

/-- What `queueNewRewards` did. -/
theorem queueNewRewards_eq_ok {w w' : World} {sender token : Address} {n : ℕ}
    (h : queueNewRewards w sender token n = .ok w') :
    w.locker.rewards.rewardDistributors token sender = true ∧
      ∃ w₁, w.Moved w₁ token sender w.locker.config.self n ∧
        queueRewards w.locker w.now token n = .ok w'.locker ∧
        w'.tokens = w₁.tokens ∧ w'.now = w.now := by
  unfold queueNewRewards at h
  obtain ⟨hd, h⟩ := require_bind_eq_ok.1 h
  obtain ⟨-, h⟩ := require_bind_eq_ok.1 h
  obtain ⟨w₁, h₁, h⟩ := bind_eq_ok.1 h
  obtain ⟨s, hs, h⟩ := bind_eq_ok.1 h
  cases h
  have hmv := World.safeTransferFrom_eq_ok h₁
  rw [hmv.locker, hmv.now] at hs
  exact ⟨hd, w₁, hmv, hs, rfl, hmv.now⟩

/-! ## Administration -/

/-- What `addReward` did. -/
theorem addReward_eq_ok {s s' : Storage} {now : ℕ} {sender token dist : Address}
    (h : addReward s now sender token dist = .ok s') :
    (s.rewards.rewardData token).lastUpdateTime = 0 ∧ token ≠ s.config.stakingToken ∧
      s.rewards.rewardTokens.length < 5 ∧
      s' = { s with rewards := setDistributor { s.rewards with
        rewardTokens := s.rewards.rewardTokens ++ [token]
        rewardData := update s.rewards.rewardData token
          { s.rewards.rewardData token with
            lastUpdateTime := trunc 32 now, periodFinish := trunc 32 now } } token dist true } := by
  unfold addReward at h
  obtain ⟨u, -, h⟩ := bind_eq_ok.1 h
  obtain ⟨h0, h⟩ := require_bind_eq_ok.1 h
  obtain ⟨hne, h⟩ := require_bind_eq_ok.1 h
  obtain ⟨hlen, h⟩ := require_bind_eq_ok.1 h
  cases h
  exact ⟨h0, hne, hlen, rfl⟩

/-- What `approveRewardDistributor` did. -/
theorem approveRewardDistributor_eq_ok {s s' : Storage} {sender token dist : Address} {b : Bool}
    (h : approveRewardDistributor s sender token dist b = .ok s') :
    0 < (s.rewards.rewardData token).lastUpdateTime ∧
      s' = { s with rewards := setDistributor s.rewards token dist b } := by
  unfold approveRewardDistributor at h
  obtain ⟨u, -, h⟩ := bind_eq_ok.1 h
  obtain ⟨hpos, h⟩ := require_bind_eq_ok.1 h
  cases h
  exact ⟨hpos, rfl⟩

/-- `s'` is `s` with other settings : not the contract's addresses, and no shutdown undone. -/
structure Reconfigured (s s' : Storage) : Prop where
  rewards : s'.rewards = s.rewards
  ledger : s'.ledger = s.ledger
  voting : s'.voting = s.voting
  self : s'.config.self = s.config.self
  stakingToken : s'.config.stakingToken = s.config.stakingToken
  isShutdown : s.config.isShutdown = true → s'.config.isShutdown = true

theorem setKickIncentive_eq_ok {s s' : Storage} {sender : Address} {r d : ℕ}
    (h : setKickIncentive s sender r d = .ok s') : Reconfigured s s' := by
  unfold setKickIncentive at h
  obtain ⟨u, -, h⟩ := bind_eq_ok.1 h
  obtain ⟨-, h⟩ := require_bind_eq_ok.1 h
  obtain ⟨-, h⟩ := require_bind_eq_ok.1 h
  cases h
  exact ⟨rfl, rfl, rfl, rfl, rfl, id⟩

theorem shutdown_eq_ok {s s' : Storage} {sender : Address} (h : shutdown s sender = .ok s') :
    Reconfigured s s' := by
  unfold shutdown at h
  obtain ⟨u, -, h⟩ := bind_eq_ok.1 h
  cases h
  exact ⟨rfl, rfl, rfl, rfl, rfl, fun _ => rfl⟩

theorem transferOwnership_eq_ok {s s' : Storage} {sender newOwner : Address}
    (h : transferOwnership s sender newOwner = .ok s') : Reconfigured s s' := by
  unfold transferOwnership at h
  obtain ⟨u, -, h⟩ := bind_eq_ok.1 h
  obtain ⟨-, h⟩ := require_bind_eq_ok.1 h
  cases h
  exact ⟨rfl, rfl, rfl, rfl, rfl, id⟩

theorem modifyBlacklist_eq_ok {w w' : World} {sender a : Address} {b : Bool}
    (h : modifyBlacklist w sender a b = .ok w') :
    Reconfigured w.locker w'.locker ∧ w'.tokens = w.tokens ∧ w'.now = w.now := by
  unfold modifyBlacklist at h
  obtain ⟨u, -, h⟩ := bind_eq_ok.1 h
  obtain ⟨-, h⟩ := require_bind_eq_ok.1 h
  cases h
  exact ⟨⟨rfl, rfl, rfl, rfl, rfl, id⟩, rfl, rfl⟩

/-- What `recoverERC20` did. -/
theorem recoverERC20_eq_ok {w w' : World} {sender token : Address} {n : ℕ}
    (h : recoverERC20 w sender token n = .ok w') :
    token ≠ w.locker.config.stakingToken ∧
      (w.locker.rewards.rewardData token).lastUpdateTime = 0 ∧
      w.Moved w' token w.locker.config.self w.locker.config.owner n := by
  unfold recoverERC20 at h
  obtain ⟨u, -, h⟩ := bind_eq_ok.1 h
  obtain ⟨hne, h⟩ := require_bind_eq_ok.1 h
  obtain ⟨h0, h⟩ := require_bind_eq_ok.1 h
  exact ⟨hne, h0, World.safeTransfer_eq_ok h⟩

theorem setApprovals_eq_ok {w w' : World} (h : setApprovals w = .ok w') :
    w'.locker = w.locker ∧ w'.now = w.now ∧ ∀ k, w'.balance k = w.balance k := by
  unfold setApprovals at h
  obtain ⟨w₁, h₁, h⟩ := bind_eq_ok.1 h
  obtain ⟨hl₁, hn₁, hb₁⟩ := World.safeApprove_eq_ok h₁
  obtain ⟨hl, hn, hb⟩ := World.safeApprove_eq_ok h
  exact ⟨hl.trans hl₁, hn.trans hn₁, fun k => (hb k).trans (hb₁ k)⟩

theorem withLocker_eq_ok {w w' : World} {s : Tx Storage} (h : w.withLocker s = .ok w') :
    ∃ s', s = .ok s' ∧ w' = { w with locker := s' } := by
  obtain ⟨s', hs, h⟩ := bind_eq_ok.1 h
  cases h
  exact ⟨s', hs, rfl⟩

/-- The calls that only change settings or allowances. -/
def Call.isSetting : Call → Bool
  | .setKickIncentive _ _ | .shutdown | .modifyBlacklist _ _ | .transferOwnership _
  | .setApprovals => true
  | _ => false

/-- What they leave alone. -/
theorem exec_reconfigured {w w' : World} {sender : Address} {c : Call} (hc : c.isSetting = true)
    (h : exec w sender c = .ok w') :
    Reconfigured w.locker w'.locker ∧ w'.now = w.now ∧ ∀ k, w'.balance k = w.balance k := by
  cases c with
  | setKickIncentive r d =>
    obtain ⟨s', hs, rfl⟩ := withLocker_eq_ok h
    exact ⟨setKickIncentive_eq_ok hs, rfl, fun _ => rfl⟩
  | shutdown =>
    obtain ⟨s', hs, rfl⟩ := withLocker_eq_ok h
    exact ⟨shutdown_eq_ok hs, rfl, fun _ => rfl⟩
  | modifyBlacklist a b =>
    obtain ⟨hr, ht, hn⟩ := modifyBlacklist_eq_ok h
    exact ⟨hr, hn, fun k => by unfold World.balance; rw [ht]⟩
  | transferOwnership a =>
    obtain ⟨s', hs, rfl⟩ := withLocker_eq_ok h
    exact ⟨transferOwnership_eq_ok hs, rfl, fun _ => rfl⟩
  | setApprovals =>
    obtain ⟨hl, hn, hb⟩ := setApprovals_eq_ok h
    exact ⟨by rw [hl]; exact ⟨rfl, rfl, rfl, rfl, rfl, id⟩, hn, hb⟩
  | _ => cases hc

end Aura.Locker
