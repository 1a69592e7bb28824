import Aura.Locker.Ledger

/-!
# AuraLocker : relocking

Lock records are never deleted, and a lock can be relocked up to a week before it expires.
The old record then still counts in the current epoch, while the tokens are already in a
new record, which counts from the next epoch on. `Relocked` is the invariant behind this :
what was processed early is covered by what was locked in the current week. So no epoch
counts tokens twice or not at all (`relock_exact`).
-/

open Evm Function Finset

namespace Aura.Locker

/-- Records that were processed a week early are covered by this week's locks. -/
def Relocked (now : ℕ) (s : Storage) : Prop :=
  s.config.isShutdown = false → ∀ u,
    amountAt ((s.ledger.userLocks u).take (s.ledger.balances u).nextUnlockIndex)
        (epochOf now + rewardsDuration) ≤
      amountAt (s.ledger.userLocks u) (epochOf now + lockDuration)

theorem amountAt_le_lockSum (locks : List LockedBalance) (t : ℕ) :
    amountAt locks t ≤ lockSum locks := by
  induction locks with
  | nil => simp
  | cons l locks ih =>
    simp only [amountAt_cons, lockSum_cons]
    split_ifs <;> omega

variable {first n now : ℕ} {s s' : Storage}

/-- In a later week nothing has been processed early. -/
theorem Relocked.time {now' : ℕ} (h : Relocked now s) (hd : Dated first n now s)
    (hn : now ≤ now') : Relocked now' s := by
  intro hsd u
  have hle : epochOf now ≤ epochOf now' := Nat.mul_le_mul_right _ (week_mono hn)
  rcases hle.eq_or_lt with he | hlt
  · rw [← he]
    exact h hsd u
  · rw [amountAt_eq_zero fun l hl => ?_]
    · exact Nat.zero_le _
    · have := hd.processed hsd u l hl
      omega

theorem Relocked.congr (h : Relocked now s) (hb : s'.ledger.balances = s.ledger.balances)
    (hl : s'.ledger.userLocks = s.ledger.userLocks)
    (hsd : s.config.isShutdown = true → s'.config.isShutdown = true) : Relocked now s' := by
  intro hsd' u
  rw [hb, hl]
  refine h ?_ u
  by_contra hne
  rw [hsd (by simpa using hne)] at hsd'
  cases hsd'

theorem Relocked.lock {a : Address} {m : ℕ} (h : Relocked now s) (hd : Dated first n now s)
    (hs : Sums now s) (hfit : Fits now) (hl : LockDone s s' now a m) : Relocked now s' := by
  intro _ u
  rw [hd.take_lock hs hfit hl, hd.amountAt_lock hfit hl]
  exact (h hl.notShutdown u).trans (Nat.le_add_right _ _)

/-- Without a relock, only records that have expired by now are processed. -/
theorem Relocked.expire {a : Address} {d : ℕ} {x : Expired} (h : Relocked now s)
    (hd : Dated first n now s) (hs : Sums now s) (hx : ExpireDone s s' now a false d x) :
    Relocked now s' := by
  intro hsd u
  have hsd₀ : s.config.isShutdown = false := hx.config ▸ hsd
  have hlocks : s'.ledger.userLocks = s.ledger.userLocks := by rw [hx.ledger]
  by_cases hu : u = a
  · subst hu
    obtain ⟨pre, post, hsplit, hn, -, hpre, -⟩ := hd.expired_split hs hx hsd₀
    have hzero : amountAt pre (epochOf now + rewardsDuration) = 0 :=
      amountAt_eq_zero fun l hl he => by
        have hle := hpre l hl
        rw [if_neg (by simp)] at hle
        have := lt_epochOf_add now
        omega
    rw [hx.take_eq hsplit hn, amountAt_append, hzero, hlocks]
    exact h hsd₀ u
  · have hb : s'.ledger.balances u = s.ledger.balances u := by simp [hx.ledger, hu]
    rw [hb, hlocks]
    exact h hsd₀ u

/-- What a relock processes early, it locks again in the current week. -/
theorem Relocked.relock {a : Address} {x : Expired} {s₁ : Storage} (h : Relocked now s)
    (hd : Dated first n now s) (hs : Sums now s) (hfit : Fits now)
    (hx : ExpireDone s s₁ now a true 0 x) (hl : LockDone s₁ s' now a (x.locked - x.reward)) :
    Relocked now s' := by
  intro _ u
  have hsd₀ : s.config.isShutdown = false := hx.config ▸ hl.notShutdown
  have hd₁ := hd.expire hs hx
  have hlocks : s₁.ledger.userLocks = s.ledger.userLocks := by rw [hx.ledger]
  rw [hd₁.take_lock (hs.expire hx) hfit hl, hd₁.amountAt_lock hfit hl, hlocks]
  by_cases hu : u = a
  · subst hu
    obtain ⟨pre, post, hsplit, hn, hlk, -, -⟩ := hd.expired_split hs hx hsd₀
    obtain ⟨-, hr, -⟩ := expired_eq_ok hx.expired
    have htake := hx.take_eq hsplit hn
    rw [hlocks] at htake
    rw [htake, amountAt_append, if_pos ⟨rfl, rfl⟩, hr rfl, hlk, Nat.sub_zero]
    exact Nat.add_le_add (h hsd₀ u) (amountAt_le_lockSum pre _)
  · have hb : s₁.ledger.balances u = s.ledger.balances u := by simp [hx.ledger, hu]
    rw [hb, if_neg fun hc => hu hc.1, Nat.add_zero]
    exact h hsd₀ u

/-- The ledger is in order, and relocks are covered as long as unlock times fit. -/
theorem inductive_relocked (first : ℕ) :
    Inductive fun _ now s => LedgerInv first now s ∧ (Fits now → Relocked now s) where
  time := by
    rintro log now now' s ⟨hinv, h⟩ hn
    refine ⟨hinv.time hn, fun hfit => ?_⟩
    obtain ⟨n, hd⟩ := hinv.dated (hfit.mono hn)
    exact (h (hfit.mono hn)).time hd hn
  change := by
    rintro log now s s' ⟨hinv, h⟩ hch
    refine ⟨hinv.change hch, fun hfit => ?_⟩
    obtain ⟨n, hd⟩ := hinv.dated hfit
    have h := h hfit
    cases hch with
    | other hl _ _ _ hsd => exact h.congr (by rw [hl]) (by rw [hl]) hsd
    | checkpoint hl _ hc =>
      obtain ⟨hb, hlocks, -⟩ := checkpointEpoch_keeps hl
      exact h.congr hb hlocks (by rw [hc]; exact id)
    | lock hl => exact h.lock hd hinv.sums hfit hl
    | expire hx => exact h.expire hd hinv.sums hx
    | relock hx hl => exact h.relock hd hinv.sums hfit hx hl
    | emergencyWithdraw hsd _ hs =>
      subst hs
      exact fun hsd' => absurd (hsd.symm.trans hsd') (by decide)
  delegate := by
    rintro log now s s' u D ⟨hinv, h⟩ hd
    refine ⟨hinv.delegate hd, fun hfit => ?_⟩
    obtain ⟨-, -, -, _, _, -, -, -, hs⟩ := delegate_eq_ok hd
    rw [hs]
    exact (h hfit).congr rfl rfl id
  log h _ := h

theorem Deploys.relocked (h : Deploys now s) : Relocked now s := by
  obtain ⟨-, self, owner, st, cc, cs, -, rfl⟩ := h
  intro _ u
  simp [deploy]

theorem Reachable.relocked {log : List Event} {w : World} (h : Reachable log w)
    (hfit : Fits w.now) : Relocked w.now w.locker := by
  obtain ⟨w₀, h₀, hs⟩ := h
  exact ((inductive_relocked _).steps [] ⟨h₀.deploys.ledgerInv, fun _ => h₀.deploys.relocked⟩ hs).2
    hfit

/-! ## What counts is locked -/

/-- Records that unlock after `E` and less than a lock duration later all count at `E`. -/
theorem activeAmount_eq_lockSum {locks : List LockedBalance} {E : ℕ}
    (h : ∀ l ∈ locks, E < l.unlockTime ∧ l.unlockTime < E + lockDuration) :
    activeAmount locks E = lockSum locks := by
  refine congrArg List.sum (List.map_congr_left fun l hl => if_pos ?_)
  exact (h l hl).symm

/-- What counts at `E` and what was locked at `E` are different records. -/
theorem activeAmount_add_le (locks : List LockedBalance) (E : ℕ) :
    activeAmount locks E + amountAt locks (E + lockDuration) ≤ lockSum locks := by
  induction locks with
  | nil => simp
  | cons l locks ih =>
    simp only [activeAmount_cons, amountAt_cons, lockSum_cons]
    split_ifs <;> omega

/-- Of processed records only those count that were processed early. -/
theorem activeAmount_early_le {locks : List LockedBalance} {k N : ℕ} (hw : WellDated locks N)
    (h : ∀ l ∈ locks, l.unlockTime ≤ (k + 1) * rewardsDuration) :
    activeAmount locks (k * rewardsDuration) ≤ amountAt locks ((k + 1) * rewardsDuration) := by
  have hgrid := hw.grid
  clear hw
  induction locks with
  | nil => simp
  | cons l locks ih =>
    have ih := ih (fun l' hl' => h l' (by simp [hl'])) fun l' hl' => hgrid l' (by simp [hl'])
    obtain ⟨m, -, hm⟩ := hgrid l (by simp)
    have hle := h l (by simp)
    rw [activeAmount_cons, amountAt_cons]
    by_cases hlt : k * rewardsDuration < l.unlockTime
    · -- on the grid there is only one such time
      have he : l.unlockTime = (k + 1) * rewardsDuration := by
        rw [hm] at hlt hle ⊢
        have h1 := Nat.lt_of_mul_lt_mul_right hlt
        have h2 := Nat.le_of_mul_le_mul_right hle rewardsDuration_pos
        rw [show m + 17 = k + 1 by omega]
      rw [if_pos he]
      split_ifs <;> omega
    · rw [if_neg fun hc => hlt hc.2]
      omega

/-- A processed record is not one of the current week. -/
theorem Dated.amountAt_processed (hd : Dated first n now s) (hsd : s.config.isShutdown = false)
    (u : Address) : amountAt ((s.ledger.userLocks u).take (s.ledger.balances u).nextUnlockIndex)
      (epochOf now + lockDuration) = 0 := by
  refine amountAt_eq_zero fun l hl he => ?_
  have := hd.processed hsd u l hl
  have := epochOf_lt_lock now
  have := epochOf_le now
  omega

/-- In the next epoch, what counts for a user is at most what it has locked. -/
theorem Dated.activeAmount_next_le (hd : Dated first n now s) (hs : Sums now s)
    (hsd : s.config.isShutdown = false) (u : Address) :
    activeAmount (s.ledger.userLocks u) (epochOf now + rewardsDuration) ≤
      (s.ledger.balances u).locked := by
  have hsplit := List.take_append_drop (s.ledger.balances u).nextUnlockIndex (s.ledger.userLocks u)
  rw [hs.locked u, ← hsplit, activeAmount_append, activeAmount_eq_zero (hd.processed hsd u),
    Nat.zero_add, hsplit]
  exact activeAmount_le _ _

/-- In the current and in the next epoch, what counts for a user is at most what it has
locked. -/
theorem activeAmount_le_locked {u : Address} (hd : Dated first n now s) (hs : Sums now s)
    (h : Relocked now s) (hsd : s.config.isShutdown = false) :
    activeAmount (s.ledger.userLocks u) (epochOf now) ≤ (s.ledger.balances u).locked ∧
      activeAmount (s.ledger.userLocks u) (epochOf now + rewardsDuration) ≤
        (s.ledger.balances u).locked := by
  refine ⟨?_, hd.activeAmount_next_le hs hsd u⟩
  have hsplit := List.take_append_drop (s.ledger.balances u).nextUnlockIndex (s.ledger.userLocks u)
  have hpast := hd.processed hsd u
  have hzero := hd.amountAt_processed hsd u
  have hearly := h hsd u
  have hdone : WellDated ((s.ledger.userLocks u).take (s.ledger.balances u).nextUnlockIndex)
      (first + n) := by
    have hw := hd.dated u
    rw [← hsplit] at hw
    exact hw.append_left
  have hnext : epochOf now + rewardsDuration = (week now + 1) * rewardsDuration := by
    rw [epochOf_eq, Nat.succ_mul]
  rw [hs.locked u]
  set done := (s.ledger.userLocks u).take (s.ledger.balances u).nextUnlockIndex
  set rest := (s.ledger.userLocks u).drop (s.ledger.balances u).nextUnlockIndex
  rw [← hsplit] at hearly ⊢
  simp only [activeAmount_append, amountAt_append] at hearly ⊢
  have hcount := activeAmount_add_le rest (epochOf now)
  have hprocessed : activeAmount done (epochOf now) ≤
      amountAt done (epochOf now + rewardsDuration) := by
    rw [hnext] at hpast ⊢
    exact activeAmount_early_le hdone hpast
  omega

/-- Right after a relock, all that is locked counts in the next epoch. -/
theorem relock_activeAmount {u : Address} {x : Expired} {s₁ : Storage} (hd : Dated first n now s)
    (hs : Sums now s) (hfit : Fits now) (hx : ExpireDone s s₁ now u true 0 x)
    (hl : LockDone s₁ s' now u (x.locked - x.reward)) :
    activeAmount (s'.ledger.userLocks u) (epochOf now + rewardsDuration) =
      (s'.ledger.balances u).locked := by
  have hsd₀ : s.config.isShutdown = false := hx.config ▸ hl.notShutdown
  have hs₁ := hs.expire hx
  have hd₁ := hd.expire hs hx
  have hs' := hs₁.lock hl
  have hd' := hd₁.lock hs₁ hfit hl
  obtain ⟨pre, post, hsplit, hn, -, -, hpost⟩ := hd.expired_split hs hx hsd₀
  rw [if_pos ⟨rfl, rfl⟩] at hpost
  obtain ⟨locks, hadd, -, -, hb, hlocks⟩ := hl.ledger_eq
  have hledger := hx.ledger
  have hrest : ∀ l ∈ (s'.ledger.userLocks u).drop (s'.ledger.balances u).nextUnlockIndex,
      epochOf now + rewardsDuration < l.unlockTime := by
    rw [hb, hlocks]
    simp only [update_self]
    intro l hm
    have := epochOf_le now
    rcases mem_drop_of_addLock hfit hadd hm with hm | hle
    · -- what the relock has left
      rw [hledger] at hm
      simp only [update_self] at hm
      rw [hn, ← List.drop_drop, hsplit, List.drop_left] at hm
      have := hpost l hm
      omega
    · have := epochOf_lt_lock now
      omega
  have hgrid := ((hd'.dated u).mono hd'.current).unlockTime_lt
  have hpast := hd'.processed (hl.config ▸ hl.notShutdown) u
  rw [hs'.locked u]
  have hwhole := List.take_append_drop (s'.ledger.balances u).nextUnlockIndex
    (s'.ledger.userLocks u)
  set done := (s'.ledger.userLocks u).take (s'.ledger.balances u).nextUnlockIndex
  set rest := (s'.ledger.userLocks u).drop (s'.ledger.balances u).nextUnlockIndex
  rw [← hwhole, activeAmount_append, activeAmount_eq_zero hpast, Nat.zero_add]
  exact activeAmount_eq_lockSum fun l hm =>
    ⟨hrest l hm, hgrid l (hwhole ▸ List.mem_append_right _ hm)⟩

/-- As long as unlock times fit in `uint32`, relocking neither counts tokens twice nor leaves
a gap : before a shutdown what counts for a user in the current and the next epoch is at
most what it has locked, and right after a relock all of it counts in the next epoch. -/
theorem relock_exact {log : List Event} {w : World} (h : Reachable log w) (hfit : Fits w.now) :
    (w.locker.config.isShutdown = false → ∀ u,
      activeAmount (w.locker.ledger.userLocks u) (epochOf w.now) ≤
          (w.locker.ledger.balances u).locked ∧
        activeAmount (w.locker.ledger.userLocks u) (epochOf w.now + rewardsDuration) ≤
          (w.locker.ledger.balances u).locked) ∧
      ∀ u w', processExpiredLocks w u true = .ok w' →
        activeAmount (w'.locker.ledger.userLocks u) (epochOf w.now + rewardsDuration) =
          (w'.locker.ledger.balances u).locked := by
  obtain ⟨first, hinv⟩ := h.ledgerInv
  constructor
  · intro hsd u
    obtain ⟨n, hd⟩ := hinv.dated hfit
    exact activeAmount_le_locked hd hinv.sums (h.relocked hfit) hsd
  · intro u w' hx
    obtain ⟨s₀, s₁, x, w₁, h₀, hex, -, -, -, -, -, -, hl⟩ := processExpiredLocks_eq_ok hx
    have hinv₀ := hinv.change ((updateReward_accrued h₀).change w.now)
    obtain ⟨n, hd⟩ := hinv₀.dated hfit
    exact relock_activeAmount hd hinv₀.sums hfit hex hl

/-- The account 1 locks in week 20 and relocks in week 36, a week before the lock expires. -/
theorem relock_exact_run : ∃ w w' : World,
    activeAmount (w.locker.ledger.userLocks 1) (epochOf w.now) ≤
        (w.locker.ledger.balances 1).locked ∧
      processExpiredLocks w 1 true = .ok w' ∧
      activeAmount (w'.locker.ledger.userLocks 1) (epochOf w.now + rewardsDuration) =
        (w'.locker.ledger.balances 1).locked := by
  let start := 20 * rewardsDuration
  let log : List Event := [⟨start, 1, .lock 1 5⟩, ⟨36 * rewardsDuration, 1, .checkpointEpoch⟩]
  have h : Reachable log ((World.initial start).after log) :=
    ⟨_, World.initial_deployed (by decide), .after (by decide +kernel)⟩
  obtain ⟨hle, hrelock⟩ := relock_exact h (by decide +kernel)
  obtain ⟨w', hw'⟩ := Tx.exists_ok
    (x := processExpiredLocks ((World.initial start).after log) 1 true) (by decide +kernel)
  exact ⟨_, w', (hle (by decide +kernel) 1).1, hw', hrelock 1 w' hw'⟩

/-- A relock whose unlock time does not fit in `uint32` does not count in the next epoch. -/
theorem relock_truncated : ¬∀ {log : List Event} {w : World}, Reachable log w →
    ∀ u w', processExpiredLocks w u true = .ok w' →
      activeAmount (w'.locker.ledger.userLocks u) (epochOf w.now + rewardsDuration) =
        (w'.locker.ledger.balances u).locked := by
  intro h
  let start := 7085 * rewardsDuration
  let log : List Event := [⟨start, 1, .lock 1 5⟩]
  let w := (World.initial start).after log
  have hrun : Reachable log w :=
    ⟨_, World.initial_deployed (by decide), .after (by decide +kernel)⟩
  obtain ⟨w', hw'⟩ := Tx.exists_ok (x := processExpiredLocks w 1 true) (by decide +kernel)
  have hcounts := h hrun 1 w' hw'
  have hrun' : (processExpiredLocks w 1 true >>= fun w' =>
      (.ok (activeAmount (w'.locker.ledger.userLocks 1) (epochOf w.now + rewardsDuration),
        (w'.locker.ledger.balances 1).locked) : Tx (ℕ × ℕ))) = .ok (0, 5) := by decide +kernel
  rw [hw', ok_bind, hcounts, Except.ok.injEq, Prod.mk.injEq] at hrun'
  omega

end Aura.Locker
