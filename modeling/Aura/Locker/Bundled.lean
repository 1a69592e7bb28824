import Aura.Locker.Kicks

/-!
# AuraLocker : bundled expiry

If the last lock of an account has expired, `_processExpiredLocks` takes all that is left of
its balance at once, and a kick is rewarded at the rate of the last lock. As long as unlock
times fit in `uint32` this is what the loop over the locks would take, and the reward exceeds
that of the loop by less than a wei for every lock, because the loop rounds for each of them
(`bundled_agrees`).
-/

open Evm Function

namespace Aura.Locker

open AuraMath

/-- The loop of `_processExpiredLocks` from the stored index, whatever the last lock is. -/
def expiredByLoop (s : Storage) (now : ℕ) (_account : Address) (_checkDelay expiryTime : ℕ) :
    Tx Expired :=
  let userBalance := s.ledger.balances _account
  expireLoop s.config now _checkDelay expiryTime
    ((s.ledger.userLocks _account).drop userBalance.nextUnlockIndex)
    ⟨0, 0, userBalance.nextUnlockIndex⟩

/-- `expireLocks` by the loop. -/
def expireLocksByLoop (s : Storage) (now : ℕ) (_account : Address) (_relock : Bool)
    (_checkDelay : ℕ) : Tx (Storage × Expired) := do
  let expiryTime ← expiryTimeOf now _relock _checkDelay
  require (0 < (s.ledger.userLocks _account).length) "no locks"
  let x ← expiredByLoop s now _account _checkDelay expiryTime
  require (0 < x.locked) "no exp locks"
  let l ← unlock s.ledger _account x
  --checkpoint the delegatee
  let v ← _checkpointDelegate s.voting now (s.voting.delegates _account) 0 0
  .ok ({ s with ledger := l, voting := v }, x)

/-! ## Rounding -/

variable {c : Config} {now d t : ℕ}

/-- One floor against a sum of floors at higher rates. -/
theorem rewardOf_lt_rewardsOf {locks : List LockedBalance} (hne : locks ≠ [])
    (h : ∀ l ∈ locks, l.unlockTime ≤ t) :
    rewardOf c now d ⟨lockSum locks, t⟩ < rewardsOf c now d locks + locks.length := by
  have hlen : 0 < locks.length := List.length_pos_of_ne_nil hne
  unfold rewardOf
  split_ifs with hd
  · set rate := kickRate c now d t with hrate
    have hround := ProRata.le_sum_portion_add rate (show 0 < denominator by decide)
      (locks.map (·.amount))
    rw [List.length_map] at hround
    have hmono : ((locks.map (·.amount)).map (ProRata.portion rate denominator)).sum ≤
        rewardsOf c now d locks := by
      rw [List.map_map]
      refine List.sum_le_sum fun l hl => ?_
      rw [comp_apply, rewardOf, if_pos hd]
      exact Nat.div_le_div_right (Nat.mul_le_mul_right _ (kickRate_anti (h l hl)))
    refine (Nat.div_lt_iff_lt_mul (show 0 < denominator by decide)).2 ?_
    calc rate * lockSum locks
        < rate * lockSum locks + locks.length := Nat.lt_add_of_pos_right hlen
      _ ≤ _ := hround
      _ ≤ (rewardsOf c now d locks + locks.length) * denominator := by gcongr
  · exact Nat.add_pos_right _ hlen

/-! ## The two ways -/

variable {s : Storage} {a : Address} {relock : Bool} {expiry first n : ℕ} {last : LockedBalance}

/-- The time before which locks expire is at most a week ahead, and in the past for a kick. -/
theorem expiryTimeOf_eq_ok (h : expiryTimeOf now relock d = .ok expiry) :
    0 < d → d ≤ now ∧ expiry = now - d := by
  intro hd
  unfold expiryTimeOf at h
  rw [if_neg fun hc => hd.ne' hc.1] at h
  exact usub_eq_ok.1 h

theorem Fits.now_lt (h : Fits now) : now < 2 ^ 32 := by
  have hlock := epochOf_lt_lock now
  unfold Fits at h
  omega

/-- A multiple of a week is not after a time exactly if it is not after the week of it. -/
theorem mul_le_epochOf {k t : ℕ} (h : k * rewardsDuration ≤ t) :
    k * rewardsDuration ≤ epochOf t :=
  Nat.mul_le_mul_right _ ((Nat.le_div_iff_mul_le rewardsDuration_pos).2 h)

/-- Every lock has expired if the last one has. -/
theorem Dated.all_expired (h : Dated first n now s)
    (he : expiryTimeOf now relock d = .ok expiry)
    (hlast : (s.ledger.userLocks a).getLast? = some last) (hexp : last.unlockTime ≤ expiry) :
    ∀ l ∈ s.ledger.userLocks a,
      l.unlockTime ≤ expiry ∧ (0 < d → d ≤ now ∧ l.unlockTime ≤ epochOf (now - d)) := by
  intro l hl
  have hle := ((h.dated a).le_last hl hlast).trans hexp
  refine ⟨hle, fun hd => ?_⟩
  obtain ⟨hdn, rfl⟩ := expiryTimeOf_eq_ok he hd
  obtain ⟨k, -, hk⟩ := (h.dated a).grid l hl
  rw [hk] at hle ⊢
  exact ⟨hdn, mul_le_epochOf hle⟩

/-- The shortcut takes everything. -/
theorem Dated.expired_of (h : Dated first n now s) (hfit : Fits now)
    (hadm : Admissible s.config) (hlt : (s.ledger.balances a).locked < 2 ^ 112)
    (he : expiryTimeOf now relock d = .ok expiry)
    (hlast : (s.ledger.userLocks a).getLast? = some last) (hexp : last.unlockTime ≤ expiry) :
    expired s now a d expiry = .ok ⟨(s.ledger.balances a).locked,
      rewardOf s.config now d ⟨(s.ledger.balances a).locked, last.unlockTime⟩,
      (s.ledger.userLocks a).length⟩ := by
  have hlate := (h.all_expired he hlast hexp last (List.mem_of_getLast? hlast)).2
  unfold expired
  dsimp only
  rw [last_eq_ok.2 hlast, ok_bind, if_pos (.inr hexp), to32,
    ucast_of (h.userLocks_length_lt hfit a), ok_bind,
    kickRewardIf_of hadm.rate hfit.now_lt hlt hlate, ok_bind]

/-- So does the loop. -/
theorem Dated.expiredByLoop_of (h : Dated first n now s) (hs : Sums now s) (hfit : Fits now)
    (hadm : Admissible s.config) (hlt : (s.ledger.balances a).locked < 2 ^ 112)
    (he : expiryTimeOf now relock d = .ok expiry)
    (hlast : (s.ledger.userLocks a).getLast? = some last) (hexp : last.unlockTime ≤ expiry) :
    expiredByLoop s now a d expiry = .ok ⟨(s.ledger.balances a).locked,
      rewardsOf s.config now d
        ((s.ledger.userLocks a).drop (s.ledger.balances a).nextUnlockIndex),
      (s.ledger.userLocks a).length⟩ := by
  have hnext := hs.next_le a
  have hlen := h.userLocks_length_lt hfit a
  rw [hs.locked a] at hlt ⊢
  unfold expiredByLoop
  dsimp only
  rw [expireLoop_of hadm.rate hfit.now_lt, Nat.zero_add, Nat.zero_add, List.length_drop,
    Nat.add_sub_cancel' hnext]
  · exact fun l hl => h.all_expired he hlast hexp l (List.mem_of_mem_drop hl)
  · rwa [Nat.zero_add]
  · exact le_rfl
  · rw [List.length_drop, Nat.add_sub_cancel' hnext]
    exact hlen

/-- Nothing but the reward depends on which way was taken. -/
theorem expireLocks_map_fst {x y : Expired} (he : expiryTimeOf now relock d = .ok expiry)
    (hx : expired s now a d expiry = .ok x) (hy : expiredByLoop s now a d expiry = .ok y)
    (hlocked : x.locked = y.locked) (hnext : x.nextUnlockIndex = y.nextUnlockIndex) :
    (expireLocks s now a relock d).map Prod.fst =
      (expireLocksByLoop s now a relock d).map Prod.fst := by
  have hunlock : unlock s.ledger a x = unlock s.ledger a y := by
    unfold unlock
    rw [hlocked, hnext]
  unfold expireLocks expireLocksByLoop
  rw [he, ok_bind, ok_bind, hx, hy, ok_bind, ok_bind, hlocked, hunlock]
  simp only [Tx.map_bind]
  rfl

/-- The shortcut and the loop agree on every account whose last lock has expired : on what is
removed and from which lock on the rest is, up to rounding on the reward of a kick, and on
when they fail. -/
theorem bundled_agrees {log : List Event} {w : World} (h : Reachable log w) (hfit : Fits w.now)
    {a : Address} {relock : Bool} {d expiry : ℕ} {last : LockedBalance}
    (he : expiryTimeOf w.now relock d = .ok expiry)
    (hlast : (w.locker.ledger.userLocks a).getLast? = some last)
    (hexp : last.unlockTime ≤ expiry) :
    ∃ x y, expired w.locker w.now a d expiry = .ok x ∧
      expiredByLoop w.locker w.now a d expiry = .ok y ∧ x.locked = y.locked ∧
      x.nextUnlockIndex = y.nextUnlockIndex ∧
      ((w.locker.ledger.balances a).nextUnlockIndex < (w.locker.ledger.userLocks a).length →
        x.reward < y.reward + ((w.locker.ledger.userLocks a).length -
          (w.locker.ledger.balances a).nextUnlockIndex)) ∧
      (∀ e, expireLocks w.locker w.now a relock d = .error e ↔
        expireLocksByLoop w.locker w.now a relock d = .error e) := by
  obtain ⟨first, hinv⟩ := h.ledgerInv
  obtain ⟨n, hd⟩ := hinv.dated hfit
  have hlocked := h.locked_lt a
  have hx := hd.expired_of hfit h.admissible hlocked he hlast hexp
  have hy := hd.expiredByLoop_of hinv.sums hfit h.admissible hlocked he hlast hexp
  refine ⟨_, _, hx, hy, rfl, rfl, fun hlt => ?_,
    Tx.error_iff_of_map (expireLocks_map_fst he hx hy rfl rfl)⟩
  have hne : (w.locker.ledger.userLocks a).drop (w.locker.ledger.balances a).nextUnlockIndex ≠ [] :=
    fun hnil => (List.drop_eq_nil_iff.1 hnil).not_gt hlt
  rw [hinv.sums.locked a, ← List.length_drop]
  exact rewardOf_lt_rewardsOf hne fun l hl => (hd.dated a).le_last (List.mem_of_mem_drop hl) hlast

/-- Locks of 24 and 33 are kicked together : one wei in the shortcut, none in the loop. -/
theorem bundled_agrees_run : ∃ (log : List Event) (w : World) (x y : Expired), Reachable log w ∧
    expired w.locker w.now 1 (3 * rewardsDuration) (40 * rewardsDuration) = .ok x ∧
    expiredByLoop w.locker w.now 1 (3 * rewardsDuration) (40 * rewardsDuration) = .ok y ∧
    x.locked = y.locked ∧ x.reward = 1 ∧ y.reward = 0 ∧ x.reward < y.reward + (2 - 0) := by
  let start := 20 * rewardsDuration
  let log : List Event := [⟨start, 1, .lock 1 24⟩, ⟨21 * rewardsDuration, 1, .lock 1 33⟩,
    ⟨43 * rewardsDuration, 1, .checkpointEpoch⟩]
  let w := (World.initial start).after log
  have h : Reachable log w := ⟨_, World.initial_deployed (by decide), .after (by decide +kernel)⟩
  have hfit : Fits w.now := by decide +kernel
  have he : expiryTimeOf w.now false (3 * rewardsDuration) = .ok (40 * rewardsDuration) := by
    decide +kernel
  have hlast : (w.locker.ledger.userLocks 1).getLast? = some ⟨33, 38 * rewardsDuration⟩ := by
    decide +kernel
  have hexp : 38 * rewardsDuration ≤ 40 * rewardsDuration := by decide
  obtain ⟨x, y, hx, hy, hlocked, -, hreward, -⟩ := bundled_agrees h hfit he hlast hexp
  have hlen : (w.locker.ledger.userLocks 1).length = 2 := by decide +kernel
  have hnext : (w.locker.ledger.balances 1).nextUnlockIndex = 0 := by decide +kernel
  rw [hlen, hnext] at hreward
  have hx' : (expired w.locker w.now 1 (3 * rewardsDuration) (40 * rewardsDuration)).map
      Expired.reward = .ok 1 := by decide +kernel
  have hy' : (expiredByLoop w.locker w.now 1 (3 * rewardsDuration) (40 * rewardsDuration)).map
      Expired.reward = .ok 0 := by decide +kernel
  rw [hx] at hx'
  rw [hy] at hy'
  exact ⟨log, w, x, y, h, hx, hy, hlocked, Except.ok.inj hx', Except.ok.inj hy',
    hreward (by decide)⟩

/-- After a lock whose unlock time was truncated, the shortcut takes a lock of the week before
that has not expired, and the loop takes nothing. -/
theorem bundled_truncated : ¬∀ {log : List Event} {w : World}, Reachable log w →
    w.locker.config.isShutdown = false → ∀ a last,
      (w.locker.ledger.userLocks a).getLast? = some last →
      last.unlockTime ≤ w.now → ∀ x y, expired w.locker w.now a 0 w.now = .ok x →
        expiredByLoop w.locker w.now a 0 w.now = .ok y → x.locked = y.locked := by
  intro h
  let start := 7084 * rewardsDuration
  let log : List Event := [⟨start, 1, .lock 1 5⟩, ⟨7085 * rewardsDuration, 1, .lock 1 7⟩]
  let w := (World.initial start).after log
  have hrun : Reachable log w := ⟨_, World.initial_deployed (by decide), .after (by decide +kernel)⟩
  have hlast : (w.locker.ledger.userLocks 1).getLast? = some ⟨7, 322304⟩ := by decide +kernel
  have hexp : 322304 ≤ w.now := by decide +kernel
  obtain ⟨x, hx⟩ := Tx.exists_ok (x := expired w.locker w.now 1 0 w.now) (by decide +kernel)
  obtain ⟨y, hy⟩ := Tx.exists_ok (x := expiredByLoop w.locker w.now 1 0 w.now) (by decide +kernel)
  have hx' : (expired w.locker w.now 1 0 w.now).map Expired.locked = .ok 12 := by decide +kernel
  have hy' : (expiredByLoop w.locker w.now 1 0 w.now).map Expired.locked = .ok 0 := by
    decide +kernel
  rw [hx] at hx'
  rw [hy] at hy'
  have heq := h hrun (by decide +kernel) 1 _ hlast hexp x y hx hy
  rw [Except.ok.inj hx', Except.ok.inj hy'] at heq
  omega

end Aura.Locker
