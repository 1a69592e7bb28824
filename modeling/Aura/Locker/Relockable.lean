import Aura.Locker.Bundled
import Aura.Locker.Relock
import Aura.Locker.Votes

/-!
# AuraLocker : when a relock succeeds

As long as timestamps fit in `uint32` and the supply in `uint224`, nothing on the way of
`processExpiredLocks(true)` overflows : what the checkpoints, the scheduled unlocks and the
supply of the current epoch add up is at most what is locked. So a lock goes through whenever
it is not refused (`Counted.exists_lock`), and a relock whenever a lock that is not processed
unlocks within a week (`relock_returns_iff`).
-/

open Evm Function Finset

namespace Aura.Locker

open AuraMath

variable {now n first m d expiry : ℕ} {s s' : Storage} {a u D : Address} {log : List Event}
  {w : World} {b : Ballot Address Address} {v : Voting}

/-! ## What is counted is locked -/

/-- What was locked in the current week is not processed. -/
theorem Dated.amountAt_le_locked (hd : Dated first n now s) (hs : Sums now s)
    (hsd : s.config.isShutdown = false) (u : Address) :
    amountAt (s.ledger.userLocks u) (epochOf now + lockDuration) ≤
      (s.ledger.balances u).locked := by
  have hsplit := List.take_append_drop (s.ledger.balances u).nextUnlockIndex (s.ledger.userLocks u)
  rw [hs.locked u, ← hsplit, amountAt_append, hd.amountAt_processed hsd u, Nat.zero_add, hsplit]
  exact amountAt_le_lockSum _ _

/-- The votes of a delegatee in the next epoch are at most the supply. -/
theorem Dated.votes_le (hd : Dated first n now s) (hs : Sums now s)
    (hsd : s.config.isShutdown = false) (log : List Event) (D : Address) :
    (ballot log s.ledger.userLocks).votes D (week now + 1) ≤ s.ledger.lockedSupply := by
  rw [hs.supply, Ballot.votes]
  refine sum_le_sum fun u _ => ?_
  split_ifs
  · have hactive : (ballot log s.ledger.userLocks).active u (week now + 1) =
        activeAmount (s.ledger.userLocks u) (epochOf now + rewardsDuration) := by
      have hterm : (ballot log s.ledger.userLocks).term = 16 := rfl
      rw [epochOf_eq, ← Nat.succ_mul, (hd.dated u).activeAmount_eq, Ballot.active, hterm]
      exact sum_congr rfl fun i _ => rfl
    rw [hactive]
    exact hd.activeAmount_next_le hs hsd u
  · exact Nat.zero_le _

/-- What is scheduled to unlock together with a lock made now is at most the supply. -/
theorem Dated.expiring_le (hd : Dated first n now s) (hs : Sums now s)
    (hsd : s.config.isShutdown = false) (log : List Event) (D : Address) :
    (ballot log s.ledger.userLocks).expiring D (week now + 17) ≤ s.ledger.lockedSupply := by
  rw [hs.supply, Ballot.expiring]
  refine sum_le_sum fun u _ => ?_
  split_ifs
  · have hle := hd.amountAt_le_locked hs hsd u
    rwa [epochOf_add_lock] at hle
  · exact Nat.zero_le _

/-- The supply of the current epoch is at most the whole supply. -/
theorem Dated.lockedIn_le (hd : Dated first n now s) (hs : Sums now s)
    (hsd : s.config.isShutdown = false) :
    lockedIn s.ledger.userLocks (week now) ≤ s.ledger.lockedSupply := by
  rw [hs.supply]
  refine sum_le_sum fun u _ => ?_
  have hle := hd.amountAt_le_locked hs hsd u
  rwa [epochOf_add_lock] at hle

/-! ## A lock goes through -/

/-- A checkpoint that takes nothing away can be written as long as the votes fit. -/
theorem exists_checkpointDelegate {addition : ℕ}
    (hr : Recorded b D (week now) (v.checkpointedVotes D)) (hterm : b.term ≤ 17)
    (hu : ∀ j ≤ week now + 1, v.delegateeUnlocks D (j * rewardsDuration) = b.expiring D j)
    (hfit : Fits now) (hlt : b.votes D (week now + 1) + addition < 2 ^ 224) :
    ∃ v', _checkpointDelegate v now D addition 0 = .ok v' := by
  obtain ⟨base, tail, -, -, -, heq⟩ := hr.writeCheckpoint_eq hterm hu addition 0
  have hnow : now + rewardsDuration < 2 ^ 32 := (epochOf_lt_lock now).trans hfit
  have hepoch : epochOf (now + rewardsDuration) = (week now + 1) * rewardsDuration := by
    simp only [epochOf, week, rewardsDuration]
    omega
  have hstart : (week now + 1) * rewardsDuration < 2 ^ 32 := hepoch ▸ (epochOf_le _).trans_lt hnow
  unfold _checkpointDelegate upcomingEpoch
  split_ifs
  · rw [add, uadd_of (hnow.trans (by norm_num)), ok_bind, ok_bind, hepoch, heq]
    unfold checkpointAt
    rw [add, uadd_of (hlt.trans (by norm_num)), ok_bind, sub, usub_of (Nat.zero_le _), ok_bind,
      Nat.sub_zero, to224, ucast_of hlt, ok_bind, to32, ucast_of hstart, ok_bind, ok_bind]
    exact ⟨_, rfl⟩
  · exact ⟨v, rfl⟩

/-- A record that a lock of today would increase is not processed. -/
theorem Dated.last_le_locked (hd : Dated first n now s) (hs : Sums now s)
    (hsd : s.config.isShutdown = false) {l : LockedBalance}
    (hl : (s.ledger.userLocks a).getLast? = some l)
    (ht : epochOf now + lockDuration ≤ l.unlockTime) : l.amount ≤ (s.ledger.balances a).locked := by
  have hmem := List.mem_of_getLast? hl
  have hsplit := List.take_append_drop (s.ledger.balances a).nextUnlockIndex (s.ledger.userLocks a)
  have hrest : l ∈ (s.ledger.userLocks a).drop (s.ledger.balances a).nextUnlockIndex := by
    rw [← hsplit] at hmem
    refine (List.mem_append.1 hmem).resolve_left fun hm => ?_
    have := hd.processed hsd a l hm
    have := epochOf_lt_lock now
    have := epochOf_le now
    omega
  rw [hs.locked a]
  exact List.le_sum_of_mem (List.mem_map_of_mem hrest)

/-- The part of a lock that keeps the locks, the balances and the epochs. -/
theorem Dated.exists_lockLedger (hd : Dated first n now s) (hs : Sums now s)
    (hsd : s.config.isShutdown = false) (hbal : (s.ledger.balances a).locked + m < 2 ^ 112)
    (hsup : s.ledger.lockedSupply + m < 2 ^ 224) :
    ∃ l, lockLedger { s.ledger with
      epochs := epochsFrom first (week now - first + 1) (lockedIn s.ledger.userLocks) } a m m
        (epochOf now + lockDuration) = .ok l := by
  have hfirst : first + (week now - first) = week now := by
    have := hd.current
    omega
  have hadd : ∃ locks, addLock (s.ledger.userLocks a) m (epochOf now + lockDuration) =
      .ok locks := by
    unfold addLock
    cases hl : (s.ledger.userLocks a).getLast? with
    | none => exact ⟨_, rfl⟩
    | some l =>
      dsimp only
      split_ifs with hlt
      · exact ⟨_, rfl⟩
      · have hle := hd.last_le_locked hs hsd hl (not_lt.1 hlt)
        rw [AuraMath112.add, uadd_of (by omega), ok_bind]
        exact ⟨_, rfl⟩
  obtain ⟨locks, hlocks⟩ := hadd
  have hlast : last (epochsFrom first (week now - first + 1) (lockedIn s.ledger.userLocks)) =
      .ok ⟨lockedIn s.ledger.userLocks (week now), week now * rewardsDuration⟩ := by
    rw [epochsFrom_succ, last_append_singleton, hfirst]
  have hepoch := hd.lockedIn_le hs hsd
  unfold lockLedger
  dsimp only
  rw [AuraMath112.add, uadd_of hbal, ok_bind, add, uadd_of (hsup.trans (by norm_num)), ok_bind,
    hlocks, ok_bind, hlast, ok_bind, AuraMath224.add, uadd_of (by dsimp only; omega), ok_bind]
  exact ⟨_, rfl⟩

/-- The part of a lock that keeps the votes. -/
theorem Counted.exists_lockVotes (hc : Counted (ballot log s.ledger.userLocks) s.voting (week now))
    (hd : Dated first n now s) (hs : Sums now s) (hfit : Fits now)
    (hsd : s.config.isShutdown = false) (hsup : s.ledger.lockedSupply + m < 2 ^ 224) :
    ∃ v, lockVotes s.voting now a m (epochOf now + lockDuration) = .ok v := by
  unfold lockVotes
  dsimp only
  split_ifs with hD
  · have hunlocks : s.voting.delegateeUnlocks (s.voting.delegates a) (epochOf now + lockDuration) ≤
        s.ledger.lockedSupply := by
      rw [epochOf_add_lock, hc.unlocks]
      exact hd.expiring_le hs hsd log _
    have hle := hd.votes_le hs hsd log (s.voting.delegates a)
    rw [add, uadd_of ((Nat.add_le_add_right hunlocks m).trans_lt (hsup.trans (by norm_num))),
      ok_bind]
    refine exists_checkpointDelegate (hc.recorded (s.voting.delegates a)) hc.term_le
      (fun j hj => ?_) hfit (by omega)
    dsimp only
    rw [setUnlocks_apply, if_neg, hc.unlocks]
    rintro ⟨-, he⟩
    rw [epochOf_add_lock] at he
    have := Nat.eq_of_mul_eq_mul_right rewardsDuration_pos he
    omega
  · exact ⟨_, rfl⟩

/-- A lock that is not refused goes through when the balance and the supply fit. -/
theorem Counted.exists_lock (hc : Counted (ballot log s.ledger.userLocks) s.voting (week now))
    (hd : Dated first n now s) (hs : Sums now s) (hfit : Fits now)
    (hsd : s.config.isShutdown = false) (hbl : s.config.blacklist a = false) (hm : 0 < m)
    (hbal : (s.ledger.balances a).locked + m < 2 ^ 112)
    (hsup : s.ledger.lockedSupply + m < 2 ^ 224) : ∃ s', _lock s now a a m = .ok s' := by
  have hT : epochOf now + lockDuration < 2 ^ 32 := hfit
  have hnot : notBlacklisted s.config a a = .ok () := by
    unfold notBlacklisted
    rw [require_of hbl, ok_bind, if_neg (not_not.2 rfl)]
  obtain ⟨l, hl⟩ := hd.exists_lockLedger hs hsd hbal hsup
  obtain ⟨v, hv⟩ := hc.exists_lockVotes hd hs hfit hsd hsup
  unfold _lock
  rw [hnot, ok_bind, require_of hm, ok_bind, require_of hsd, ok_bind, hd.checkpointEpoch_eq hfit,
    ok_bind, to112, ucast_of (by omega), ok_bind, add, uadd_of (hT.trans (by norm_num)), ok_bind,
    hl, ok_bind, hv, ok_bind]
  exact ⟨_, rfl⟩

/-! ## A relock goes through -/

/-- The loop returns when no kick reward is computed. -/
theorem exists_expireLoop {c : Config} : ∀ {locks : List LockedBalance} {x : Expired},
    x.locked + lockSum locks < 2 ^ 112 → x.reward < 2 ^ 256 →
    x.nextUnlockIndex + locks.length < 2 ^ 32 → ∃ x', expireLoop c now 0 expiry locks x = .ok x'
  | [], x, _, _, _ => ⟨x, rfl⟩
  | l :: locks, x, hsum, hreward, hlen => by
    rw [lockSum_cons] at hsum
    rw [List.length_cons] at hlen
    unfold expireLoop
    split_ifs
    · exact ⟨x, rfl⟩
    · have hkick : kickRewardIf c now 0 l.unlockTime l.amount = .ok 0 := if_neg (lt_irrefl 0)
      rw [AuraMath112.add, uadd_of (by omega), ok_bind, hkick, ok_bind, add, uadd_of hreward,
        ok_bind, uadd_of (by omega), ok_bind]
      exact exists_expireLoop (by dsimp only; omega) hreward (by dsimp only; omega)

/-- The loop takes the first record, which has expired if any has. -/
theorem expireLoop_locked_pos {c : Config} {i : ℕ} {locks : List LockedBalance} {x : Expired}
    (hsorted : locks.Pairwise fun l l' => l.unlockTime < l'.unlockTime)
    (hpos : ∀ l ∈ locks, 0 < l.amount) (hex : ∃ l ∈ locks, l.unlockTime ≤ expiry)
    (hx : expireLoop c now d expiry locks ⟨0, 0, i⟩ = .ok x) : 0 < x.locked := by
  obtain ⟨l, hl, hle⟩ := hex
  obtain ⟨pre, post, rfl, -, hlocked, -, -, -, hpost⟩ := expireLoop_eq_ok hx
  rw [hlocked, Nat.zero_add]
  cases pre with
  | nil =>
    rw [List.nil_append] at hl hsorted
    cases post with
    | nil => cases hl
    | cons y post =>
      have hlate := hpost y rfl
      rcases List.mem_cons.1 hl with rfl | hl
      · exact absurd hle (not_le.2 hlate)
      · have := (List.pairwise_cons.1 hsorted).1 l hl
        omega
  | cons y pre =>
    rw [lockSum_cons]
    exact Nat.add_pos_left (hpos y (by simp)) _

/-- Something expires when a record that is not processed unlocks by the expiry time. -/
theorem Dated.exists_expired (hd : Dated first n now s) (hs : Sums now s) (hfit : Fits now)
    (hadm : Admissible s.config) (hlt : (s.ledger.balances a).locked < 2 ^ 112)
    (he : expiryTimeOf now true 0 = .ok expiry)
    (hex : ∃ l ∈ (s.ledger.userLocks a).drop (s.ledger.balances a).nextUnlockIndex,
      l.unlockTime ≤ expiry) :
    ∃ x, expired s now a 0 expiry = .ok x ∧ 0 < x.locked ∧ x.reward = 0 := by
  obtain ⟨l, hl, hle⟩ := hex
  have hpos := hs.pos a l (List.mem_of_mem_drop hl)
  have hsum := hs.locked a
  have hamount : l.amount ≤
      lockSum ((s.ledger.userLocks a).drop (s.ledger.balances a).nextUnlockIndex) :=
    List.le_sum_of_mem (List.mem_map_of_mem hl)
  obtain ⟨lst, hlast⟩ := Option.ne_none_iff_exists'.1
    (mt List.getLast?_eq_none_iff.1 (List.ne_nil_of_mem (List.mem_of_mem_drop hl)))
  by_cases hexp : lst.unlockTime ≤ expiry
  · have hx := hd.expired_of hfit hadm hlt he hlast hexp
    exact ⟨_, hx, by dsimp only; omega, (expired_eq_ok hx).2.1 rfl⟩
  · by_cases hshut : s.config.isShutdown = true
    · have hx : expired s now a 0 expiry = .ok ⟨(s.ledger.balances a).locked, 0,
          (s.ledger.userLocks a).length⟩ := by
        unfold expired
        dsimp only
        rw [last_eq_ok.2 hlast, ok_bind, if_pos (.inl hshut), to32,
          ucast_of (hd.userLocks_length_lt hfit a), ok_bind]
        rfl
      exact ⟨_, hx, by dsimp only; omega, rfl⟩
    · have hlen := hd.userLocks_length_lt hfit a
      have hnext := hs.next_le a
      have hloop : ∃ x, expireLoop s.config now 0 expiry
          ((s.ledger.userLocks a).drop (s.ledger.balances a).nextUnlockIndex)
          ⟨0, 0, (s.ledger.balances a).nextUnlockIndex⟩ = .ok x :=
        exists_expireLoop (by dsimp only; omega) (by norm_num)
          (by rw [List.length_drop]; dsimp only; omega)
      obtain ⟨x, hx⟩ := hloop
      have hx' : expired s now a 0 expiry = .ok x := by
        unfold expired
        dsimp only
        rw [last_eq_ok.2 hlast, ok_bind, if_neg (not_or.2 ⟨hshut, hexp⟩)]
        exact hx
      refine ⟨x, hx', ?_, (expired_eq_ok hx').2.1 rfl⟩
      exact expireLoop_locked_pos ((hd.dated a).sorted.sublist (List.drop_sublist _ _))
        (fun y hy => hs.pos a y (List.mem_of_mem_drop hy)) ⟨l, hl, hle⟩ hx

/-- `expireLocks` for a relock returns when something expires and the votes fit. -/
theorem Counted.exists_expireLocks
    (hc : Counted (ballot log s.ledger.userLocks) s.voting (week now))
    (hd : Dated first n now s) (hs : Sums now s) (hfit : Fits now) (hadm : Admissible s.config)
    (hsd : s.config.isShutdown = false) (hlt : (s.ledger.balances a).locked < 2 ^ 112)
    (hsup : s.ledger.lockedSupply < 2 ^ 224)
    (hex : ∃ l ∈ (s.ledger.userLocks a).drop (s.ledger.balances a).nextUnlockIndex,
      l.unlockTime ≤ now + rewardsDuration) :
    ∃ s₁ x, expireLocks s now a true 0 = .ok (s₁, x) ∧ x.reward = 0 := by
  have hnow : now + rewardsDuration < 2 ^ 256 :=
    ((epochOf_lt_lock now).trans hfit).trans (by norm_num)
  have he : expiryTimeOf now true 0 = .ok (now + rewardsDuration) := by
    unfold expiryTimeOf
    rw [if_pos ⟨rfl, rfl⟩, add, uadd_of hnow]
  obtain ⟨x, hx, hpos, hzero⟩ := hd.exists_expired hs hfit hadm hlt he hex
  have hle : x.locked ≤ (s.ledger.balances a).locked := by
    obtain ⟨-, -, ⟨hall, -⟩ | ⟨-, pre, post, hsplit, -, hlk, -⟩⟩ := expired_eq_ok hx
    · exact hall.le
    · rw [hs.locked a, hsplit, lockSum_append, hlk]
      exact Nat.le_add_right _ _
  have hsupply : x.locked ≤ s.ledger.lockedSupply := hle.trans (hs.supply ▸ locked_le_sum _ a)
  have hlen : 0 < (s.ledger.userLocks a).length := by
    obtain ⟨l, hl, -⟩ := hex
    exact List.length_pos_of_mem (List.mem_of_mem_drop hl)
  obtain ⟨v, hv⟩ : ∃ v, _checkpointDelegate s.voting now (s.voting.delegates a) 0 0 = .ok v :=
    exists_checkpointDelegate (hc.recorded _) hc.term_le (fun j _ => hc.unlocks _ j) hfit (by
      rw [Nat.add_zero]
      exact (hd.votes_le hs hsd log _).trans_lt hsup)
  unfold expireLocks unlock
  rw [he, ok_bind, require_of hlen, ok_bind, hx, ok_bind, require_of hpos, ok_bind,
    AuraMath112.sub, usub_of hle, ok_bind, sub, usub_of hsupply, ok_bind, ok_bind, hv, ok_bind]
  exact ⟨_, x, rfl, hzero⟩

/-- Before a shutdown, for an account that is not blacklisted and whose rewards can be
updated, a relock succeeds exactly if a record that is not processed unlocks within a week. -/
theorem relock_returns_iff (h : Reachable log w) (hfit : Fits w.now)
    (hsupply : w.locker.ledger.lockedSupply < 2 ^ 224)
    (hsd : w.locker.config.isShutdown = false) (hbl : w.locker.config.blacklist u = false)
    (hx : updateReward w.locker w.now u = .ok s) :
    (∃ w', processExpiredLocks w u true = .ok w') ↔
      ∃ l ∈ (w.locker.ledger.userLocks u).drop (w.locker.ledger.balances u).nextUnlockIndex,
        l.unlockTime ≤ w.now + rewardsDuration := by
  have hacc := updateReward_accrued hx
  obtain ⟨first, hinv⟩ := h.votesInv
  have hinv := hinv.change (hacc.change w.now)
  obtain ⟨n, hd⟩ := hinv.ledger.dated hfit
  have hs := hinv.ledger.sums
  rw [← hacc.ledger]
  rw [← hacc.config] at hsd hbl
  rw [← hacc.ledger] at hsupply
  have hlt : (s.ledger.balances u).locked < 2 ^ 112 := hacc.ledger ▸ h.locked_lt u
  constructor
  · rintro ⟨w', hw'⟩
    obtain ⟨s₀, s₁, x, w₁, h₀, hex, -⟩ := processExpiredLocks_eq_ok hw'
    obtain rfl : s = s₀ := Except.ok.inj (hx.symm.trans h₀)
    obtain ⟨pre, post, hsplit, -, hlocked, hpre, -⟩ := hd.expired_split hs hex hsd
    have hpos := hex.locked_pos
    cases pre with
    | nil =>
      rw [hlocked] at hpos
      exact absurd hpos (lt_irrefl 0)
    | cons l pre => exact ⟨l, by rw [hsplit]; simp, hpre l (by simp)⟩
  · intro hex
    obtain ⟨s₁, x, h₁, hzero⟩ := (hinv.counted hfit).exists_expireLocks hd hs hfit
      (hacc.config ▸ h.admissible) hsd hlt hsupply hex
    have hx₁ := expireLocks_eq_ok h₁
    have hd₁ := hd.expire hs hx₁
    have hs₁ := hs.expire hx₁
    have hc₁ : Counted (ballot log s₁.ledger.userLocks) s₁.voting (week w.now) := by
      rw [hx₁.ledger]
      exact (hinv.counted hfit).roll hx₁.voting
    -- what expired is locked again, so balance and supply are as before
    have hbal : (s₁.ledger.balances u).locked + x.locked = (s.ledger.balances u).locked := by
      rw [hx₁.ledger]
      dsimp only
      rw [update_self]
      exact Nat.sub_add_cancel hx₁.locked_le
    have hsup₁ : s₁.ledger.lockedSupply + x.locked = s.ledger.lockedSupply := by
      rw [hx₁.ledger]
      exact Nat.sub_add_cancel hx₁.supply_le
    obtain ⟨s₂, h₂⟩ := hc₁.exists_lock hd₁ hs₁ hfit (hx₁.config ▸ hsd) (hx₁.config ▸ hbl)
      hx₁.locked_pos (hbal.symm ▸ hlt) (hsup₁.symm ▸ hsupply)
    refine ⟨{ w with locker := s₂ }, ?_⟩
    unfold processExpiredLocks _processExpiredLocks sendIncentive
    rw [hx, ok_bind, h₁, ok_bind]
    dsimp only
    rw [hzero, if_neg (lt_irrefl 0), ok_bind]
    dsimp only
    rw [if_pos rfl, h₂, ok_bind]

end Aura.Locker
