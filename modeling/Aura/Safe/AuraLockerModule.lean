import Aura.Locker.LockedBalances
import Aura.Locker.Relockable

/-!
# AuraLockerModule

A module of a Safe that lets a keeper relock what the Safe has locked in `AuraLocker`. Its
check `hasExpiredLocks` decides from `lockedBalances` what the locker decides from its own
records. Both come to the same (`hasExpiredLocks_exact`) : a record that is not processed
unlocks within a week.

The Safe itself is not part of this repository. Its `execTransactionFromModule` is a parameter,
with what the module relies on as `Executes`.

From week 7101 on the locker cannot write the next checkpoint of a delegatee any more, as
its start does not fit in `uint32`, and the check still passes (`hasExpiredLocks_late`).
-/

open Evm

namespace Aura.Safe

open Locker

/-- The storage of the module. The locker it is for is the one of the world. -/
structure AuraLockerModule where
  safeWallet : Address
  authorizedKeepers : Address → Bool

/-- The loop of `hasExpiredLocks`. -/
def expiresSoon (timestamp : ℕ) : List LockedBalance → Tx Bool
  | [] => .ok false
  | l :: lockData => do
    let t ← usub l.unlockTime (86400 * 7)
    if t ≤ timestamp then .ok true else expiresSoon timestamp lockData

/-- `execTransactionFromModule` of a Safe. It gets what the call does when the Safe makes it,
and reports whether it succeeded. -/
abbrev ExecTransaction := World → (call : Tx World) → Tx (World × Bool)

/-- The Safe makes the calls of the module. One that fails changes nothing, and is reported. -/
structure Executes (execTransactionFromModule : ExecTransaction) : Prop where
  ok : ∀ w w', execTransactionFromModule w (.ok w') = .ok (w', true)
  error : ∀ w e, execTransactionFromModule w (.error e) = .ok (w, false)

/-- `_execCallFromModule` of `Module`. -/
def _execCallFromModule (execTransactionFromModule : ExecTransaction) (w : World)
    (call : Tx World) : Tx World := do
  let r ← execTransactionFromModule w call
  require (r.2 = true) "!success"
  .ok r.1

namespace AuraLockerModule

/-- `hasExpiredLocks`. -/
def hasExpiredLocks (m : AuraLockerModule) (w : World) : Tx Bool := do
  let r ← lockedBalances w.locker w.now m.safeWallet
  if 0 < r.unlockable then .ok true else expiresSoon w.now r.lockData

/-- `processExpiredLocks`. -/
def processExpiredLocks (m : AuraLockerModule) (execTransactionFromModule : ExecTransaction)
    (w : World) (sender : Address) : Tx World := do
  require (m.authorizedKeepers sender = true) "!keeper"
  let requiresLocking ← m.hasExpiredLocks w
  require (requiresLocking = true) "NothingToLock"
  _execCallFromModule execTransactionFromModule w (Locker.processExpiredLocks w m.safeWallet true)

end AuraLockerModule

variable {now first n : ℕ} {s : Storage} {u : Address} {w : World}

/-! ## The check -/

/-- The loop finds a lock that unlocks within a week. -/
theorem expiresSoon_eq : ∀ {lockData : List LockedBalance},
    (∀ l ∈ lockData, rewardsDuration ≤ l.unlockTime) →
    expiresSoon now lockData = .ok (decide (∃ l ∈ lockData, l.unlockTime ≤ now + rewardsDuration))
  | [], _ => rfl
  | l :: lockData, h => by
    have hl : 86400 * 7 ≤ l.unlockTime := h l (by simp)
    have hlater : ∀ l' ∈ lockData, rewardsDuration ≤ l'.unlockTime :=
      fun l' hl' => h l' (List.mem_cons_of_mem l hl')
    have ih := expiresSoon_eq hlater
    have hweek : l.unlockTime - 86400 * 7 ≤ now ↔ l.unlockTime ≤ now + rewardsDuration :=
      Nat.sub_le_iff_le_add
    unfold expiresSoon
    rw [usub_of hl, ok_bind, ih]
    simp only [hweek, List.mem_cons, exists_eq_or_imp]
    split_ifs with hle
    · simp [hle]
    · simp [hle]

/-- The amounts of the records that have expired and of those that have not. -/
theorem lockSum_filter (now : ℕ) (locks : List LockedBalance) :
    lockSum (locks.filter fun l => l.unlockTime ≤ now) +
      lockSum (locks.filter fun l => now < l.unlockTime) = lockSum locks := by
  induction locks with
  | nil => rfl
  | cons l locks ih =>
    rw [lockSum_cons]
    by_cases hl : l.unlockTime ≤ now
    · rw [List.filter_cons_of_pos (by simpa using hl), List.filter_cons_of_neg (by simpa using hl),
        lockSum_cons]
      omega
    · rw [List.filter_cons_of_neg (by simpa using hl), List.filter_cons_of_pos (by simpa using hl),
        lockSum_cons]
      omega

/-- As no amount is zero, some of the records have expired exactly if their amounts are not
zero. -/
theorem lockSum_filter_pos {locks : List LockedBalance} (h : ∀ l ∈ locks, 0 < l.amount) (now : ℕ) :
    0 < lockSum (locks.filter fun l => l.unlockTime ≤ now) ↔ ∃ l ∈ locks, l.unlockTime ≤ now := by
  constructor
  · intro hlt
    have hne : locks.filter (fun l => l.unlockTime ≤ now) ≠ [] := by
      intro hnil
      rw [hnil] at hlt
      exact absurd hlt (lt_irrefl 0)
    obtain ⟨l, hl⟩ := List.exists_mem_of_ne_nil _ hne
    exact ⟨l, List.mem_of_mem_filter hl, by simpa using (List.mem_filter.1 hl).2⟩
  · rintro ⟨l, hl, hle⟩
    have hl' : l ∈ locks.filter fun l => l.unlockTime ≤ now :=
      List.mem_filter.2 ⟨hl, by simpa using hle⟩
    exact (h l hl).trans_le (List.le_sum_of_mem (List.mem_map_of_mem hl'))

/-- The check passes exactly if a record that is not processed unlocks within a week. -/
theorem hasExpiredLocks_eq {log : List Event} (h : Reachable log w) (hfit : Fits w.now)
    (m : AuraLockerModule) :
    ∃ b, m.hasExpiredLocks w = .ok b ∧ (b = true ↔
      ∃ l ∈ (w.locker.ledger.userLocks m.safeWallet).drop
          (w.locker.ledger.balances m.safeWallet).nextUnlockIndex,
        l.unlockTime ≤ w.now + rewardsDuration) := by
  obtain ⟨r, hr, htotal, hsplit, hdata⟩ := lockedBalances_partition h m.safeWallet
  obtain ⟨hdata, hlocked⟩ := hdata hfit
  obtain ⟨first, hinv⟩ := h.ledgerInv
  obtain ⟨n, hd⟩ := hinv.dated hfit
  have hsum := hinv.sums.locked m.safeWallet
  set locks := (w.locker.ledger.userLocks m.safeWallet).drop
    (w.locker.ledger.balances m.safeWallet).nextUnlockIndex with hlocks
  have hmem : ∀ l ∈ locks, l ∈ w.locker.ledger.userLocks m.safeWallet := fun l hl =>
    List.mem_of_mem_drop hl
  have hweek : ∀ l ∈ r.lockData, rewardsDuration ≤ l.unlockTime := by
    intro l hl
    rw [hdata] at hl
    obtain ⟨k, -, hk⟩ := (hd.dated m.safeWallet).grid l (hmem l (List.mem_of_mem_filter hl))
    rw [hk]
    exact Nat.le_mul_of_pos_left _ (Nat.add_pos_right _ (by decide))
  -- what can be unlocked is what has expired
  have hfilter := lockSum_filter w.now locks
  rw [← hdata, hlocked, ← hsum, ← htotal] at hfilter
  have hunlockable : lockSum (locks.filter fun l => l.unlockTime ≤ w.now) = r.unlockable := by
    omega
  have hpos : 0 < r.unlockable ↔ ∃ l ∈ locks, l.unlockTime ≤ w.now := by
    rw [← hunlockable]
    exact lockSum_filter_pos (fun l hl => hinv.sums.pos m.safeWallet l (hmem l hl)) w.now
  unfold AuraLockerModule.hasExpiredLocks
  rw [hr, ok_bind, expiresSoon_eq hweek]
  split_ifs with hnow
  · obtain ⟨l, hl, hle⟩ := hpos.1 hnow
    exact ⟨true, rfl, iff_of_true rfl ⟨l, hl, hle.trans (Nat.le_add_right _ _)⟩⟩
  · refine ⟨_, rfl, ?_⟩
    rw [decide_eq_true_iff, hdata]
    constructor
    · rintro ⟨l, hl, hle⟩
      exact ⟨l, List.mem_of_mem_filter hl, hle⟩
    · rintro ⟨l, hl, hle⟩
      refine ⟨l, List.mem_filter.2 ⟨hl, ?_⟩, hle⟩
      by_contra hlate
      exact hnow (hpos.2 ⟨l, hl, by simpa using hlate⟩)

/-! ## The check and the call -/

/-- The module's call succeeds exactly if the call of the Safe does, to the same effect. -/
theorem Executes.execCall_iff {f : ExecTransaction} (hf : Executes f) {call : Tx World}
    {w' : World} : _execCallFromModule f w call = .ok w' ↔ call = .ok w' := by
  unfold _execCallFromModule
  cases call with
  | ok w₁ =>
    rw [hf.ok, ok_bind, require_of rfl, ok_bind]
  | error e =>
    rw [hf.error, ok_bind]
    exact iff_of_false (fun h => Bool.false_ne_true (require_bind_eq_ok.1 h).1) nofun

/-- Before a shutdown, for a Safe that is not blacklisted and whose rewards can be updated,
the check passes exactly if the relock succeeds, and exactly then the call of a keeper does. -/
theorem hasExpiredLocks_exact {log : List Event} (h : Reachable log w) (hfit : Fits w.now)
    (hsupply : (w.tokens w.locker.config.stakingToken).totalSupply < 2 ^ 224)
    (m : AuraLockerModule) (hsd : w.locker.config.isShutdown = false)
    (hbl : w.locker.config.blacklist m.safeWallet = false)
    (hx : (updateReward w.locker w.now m.safeWallet).returns = true) {f : ExecTransaction}
    (hf : Executes f) :
    ∃ requiresLocking, m.hasExpiredLocks w = .ok requiresLocking ∧
      (requiresLocking = true ↔
        ∃ w', Locker.processExpiredLocks w m.safeWallet true = .ok w') ∧
      ∀ keeper, m.authorizedKeepers keeper = true →
        (requiresLocking = true ↔ ∃ w', m.processExpiredLocks f w keeper = .ok w') := by
  obtain ⟨s, hs⟩ := Tx.exists_ok hx
  have hlocked : w.locker.ledger.lockedSupply < 2 ^ 224 :=
    (h.custody.covered.trans (Erc20.balanceOf_le _ _)).trans_lt hsupply
  obtain ⟨b, hb, hiff⟩ := hasExpiredLocks_eq h hfit m
  have hrelock := hiff.trans (relock_returns_iff h hfit hlocked hsd hbl hs).symm
  refine ⟨b, hb, hrelock, fun keeper hk => ?_⟩
  rw [hrelock]
  unfold AuraLockerModule.processExpiredLocks
  rw [require_of hk, ok_bind, hb, ok_bind]
  constructor
  · rintro ⟨w', hw'⟩
    rw [require_of (hrelock.2 ⟨w', hw'⟩), ok_bind]
    exact ⟨w', hf.execCall_iff.2 hw'⟩
  · rintro ⟨w', hw'⟩
    exact hrelock.1 (require_bind_eq_ok.1 hw').1

/-- A Safe that has enabled the module. -/
def enabledSafe : ExecTransaction
  | _, .ok w' => .ok (w', true)
  | w, .error _ => .ok (w, false)

theorem enabledSafe_executes : Executes enabledSafe :=
  ⟨fun _ _ => rfl, fun _ _ => rfl⟩

/-- A Safe, the account 1, with a lock that unlocks in a week. -/
theorem hasExpiredLocks_exact_run : ∃ (m : AuraLockerModule) (w w' : World),
    m.hasExpiredLocks w = .ok true ∧ Locker.processExpiredLocks w m.safeWallet true = .ok w' ∧
      m.processExpiredLocks enabledSafe w 7 = .ok w' := by
  let start := 20 * rewardsDuration
  let log : List Event := [⟨start, 1, .lock 1 10⟩, ⟨start + 5, 1, .delegate 2⟩,
    ⟨36 * rewardsDuration, 2, .checkpointEpoch⟩]
  let w := (World.initial start).after log
  let m : AuraLockerModule := ⟨1, fun a => a = 7⟩
  have h : Reachable log w := ⟨_, World.initial_deployed (by decide), .after (by decide +kernel)⟩
  have hcheck : m.hasExpiredLocks w = .ok true := by decide +kernel
  obtain ⟨b, hb, -, hkeeper⟩ := hasExpiredLocks_exact h (by decide +kernel)
    (by decide +kernel) m (by decide +kernel) (by decide +kernel) (by decide +kernel)
    enabledSafe_executes
  rw [hcheck] at hb
  cases hb
  obtain ⟨w', hw'⟩ := (hkeeper 7 rfl).1 rfl
  have hcall : Locker.processExpiredLocks w m.safeWallet true = .ok w' := by
    have hexec := hw'
    unfold AuraLockerModule.processExpiredLocks at hexec
    rw [require_of (show m.authorizedKeepers 7 = true from rfl), ok_bind, hcheck, ok_bind,
      require_of rfl, ok_bind] at hexec
    exact enabledSafe_executes.execCall_iff.1 hexec
  exact ⟨m, w, w', hcheck, hcall, hw'⟩

/-- In week 7101 the checkpoint for the next week cannot be written, and the check still
passes. -/
theorem hasExpiredLocks_late : ¬∀ {log : List Event} {w : World}, Reachable log w →
    ∀ m : AuraLockerModule, w.locker.config.isShutdown = false →
      w.locker.config.blacklist m.safeWallet = false →
      (updateReward w.locker w.now m.safeWallet).returns = true →
      (m.hasExpiredLocks w = .ok true ↔
        ∃ w', Locker.processExpiredLocks w m.safeWallet true = .ok w') := by
  intro h
  let start := 7060 * rewardsDuration
  let log : List Event := [⟨start, 1, .lock 1 10⟩, ⟨start, 1, .delegate 2⟩,
    ⟨7101 * rewardsDuration, 101, .setKickIncentive 100 3⟩]
  let w := (World.initial start).after log
  let m : AuraLockerModule := ⟨1, fun a => a = 7⟩
  have hrun : Reachable log w :=
    ⟨_, World.initial_deployed (by decide), .after (by decide +kernel)⟩
  obtain ⟨w', hw'⟩ := (h hrun m (by decide +kernel) (by decide +kernel) (by decide +kernel)).1
    (by decide +kernel)
  have hreverts : (Locker.processExpiredLocks w 1 true).returns = false := by decide +kernel
  rw [hw'] at hreverts
  exact Bool.noConfusion hreverts

end Aura.Safe
