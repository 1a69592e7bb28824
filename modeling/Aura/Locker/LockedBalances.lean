import Aura.Locker.Kicks

/-!
# AuraLocker : lockedBalances

`lockedBalances` scans the locks that are not processed and sorts them into those that have
expired and those that have not. The array of the latter is allocated with zeros when the
first of them comes up, with an entry for every lock from there on, so it comes out full if
no lock after the first of them has expired (`scanLocks_sorted`), which the order of the
unlock times guarantees (`lockedBalances_partition`) as long as they fit in `uint32`
(`lockedBalances_truncated`).
-/

open Evm Function

namespace Aura.Locker

open AuraMath

variable {now N i : ℕ} {w : World}

/-! ## The scan -/

/-- The scan returns, and every amount is counted once. The array has room for as many
records as are left. -/
theorem exists_scanLocks : ∀ {locks : List LockedBalance} {i : ℕ} {x : LockedScan},
    i + locks.length = N → (∀ l ∈ locks, 0 < l.amount) →
    (x.idx = 0 ∨ x.idx + locks.length ≤ x.lockData.length) → x.idx + lockSum locks < 2 ^ 256 →
    x.unlockable + x.locked + lockSum locks < 2 ^ 256 →
    ∃ x', scanLocks now N locks i x = .ok x' ∧
      x'.unlockable + x'.locked = x.unlockable + x.locked + lockSum locks
  | [], _, x, _, _, _, _, _ => ⟨x, rfl, rfl⟩
  | l :: locks, i, x, hN, hpos, hroom, hidx, hsum => by
    rw [List.length_cons] at hN
    rw [lockSum_cons] at hidx hsum
    have hl := hpos l (by simp)
    have hpos' : ∀ l' ∈ locks, 0 < l'.amount := fun l' hl' => hpos l' (by simp [hl'])
    unfold scanLocks
    by_cases hlt : now < l.unlockTime
    · rw [if_pos hlt]
      -- allocated now or before, the array has an entry for this lock and for the rest
      set lockData := if x.idx = 0 then List.replicate (N - i) ⟨0, 0⟩ else x.lockData with hdata
      have hlen : x.idx + (locks.length + 1) ≤ lockData.length := by
        rw [hdata]
        split_ifs with hz
        · rw [List.length_replicate, hz]
          omega
        · exact (hroom.resolve_left hz)
      rw [usub_of (show i ≤ N by omega), ok_bind]
      dsimp only
      rw [← hdata, assign_of (by omega), ok_bind, uadd_of (by omega), ok_bind, add,
        uadd_of (by omega), ok_bind]
      have hN' : i + 1 + locks.length = N := by omega
      obtain ⟨x', hx', hs'⟩ := @exists_scanLocks locks (i + 1)
        ⟨x.unlockable, x.locked + l.amount, x.idx + 1, lockData.set x.idx l⟩ hN' hpos'
        (.inr (by rw [List.length_set]; dsimp only; omega)) (by dsimp only; omega)
        (by dsimp only; omega)
      refine ⟨x', hx', hs'.trans ?_⟩
      rw [lockSum_cons]
      dsimp only
      omega
    · rw [if_neg hlt, add, uadd_of (by omega), ok_bind]
      have hroom' : x.idx = 0 ∨ x.idx + locks.length ≤ x.lockData.length :=
        hroom.imp_right fun h => by rw [List.length_cons] at h; omega
      obtain ⟨x', hx', hs'⟩ := @exists_scanLocks locks (i + 1)
        { x with unlockable := x.unlockable + l.amount } (by omega) hpos' hroom'
        (by dsimp only; omega) (by dsimp only; omega)
      refine ⟨x', hx', hs'.trans ?_⟩
      rw [lockSum_cons]
      dsimp only
      omega

/-- When nothing that is left has expired, a partly filled array is filled up. -/
theorem scanLocks_rest : ∀ {locks pre : List LockedBalance} {i unlockable locked : ℕ}
    {x' : LockedScan}, (∀ l ∈ locks, now < l.unlockTime) → pre ≠ [] →
    scanLocks now N locks i ⟨unlockable, locked, pre.length,
      pre ++ List.replicate locks.length ⟨0, 0⟩⟩ = .ok x' →
    x'.locked = locked + lockSum locks ∧ x'.lockData = pre ++ locks
  | [], pre, _, _, _, x', _, _, h => by
    cases h
    exact ⟨rfl, rfl⟩
  | l :: locks, pre, i, unlockable, locked, x', hall, hne, h => by
    unfold scanLocks at h
    rw [if_pos (hall l (by simp))] at h
    obtain ⟨size, -, h⟩ := bind_eq_ok.1 h
    have hidx : pre.length ≠ 0 := fun hz => hne (List.length_eq_zero_iff.1 hz)
    dsimp only at h
    rw [if_neg hidx, assign_of (by simp), ok_bind] at h
    obtain ⟨idx, hi, h⟩ := bind_eq_ok.1 h
    obtain ⟨-, rfl⟩ := uadd_eq_ok.1 hi
    obtain ⟨n, hn, h⟩ := bind_eq_ok.1 h
    obtain ⟨-, rfl⟩ := uadd_eq_ok.1 hn
    have hset : (pre ++ List.replicate (l :: locks).length (⟨0, 0⟩ : LockedBalance)).set
        pre.length l = (pre ++ [l]) ++ List.replicate locks.length ⟨0, 0⟩ := by
      rw [List.set_append_right _ _ le_rfl, Nat.sub_self, List.append_assoc]
      rfl
    have hlen : pre.length + 1 = (pre ++ [l]).length := by simp
    rw [hset, hlen] at h
    have hrest : ∀ l' ∈ locks, now < l'.unlockTime := fun l' hl' => hall l' (by simp [hl'])
    have hpre : pre ++ [l] ≠ [] := List.append_ne_nil_of_right_ne_nil pre (List.cons_ne_nil l [])
    obtain ⟨hlocked, hdata⟩ := scanLocks_rest hrest hpre h
    refine ⟨?_, ?_⟩
    · rw [hlocked, lockSum_cons]
      omega
    · rw [hdata, List.append_assoc]
      rfl

/-- When the locks are ordered, the array holds exactly those that have not expired. -/
theorem scanLocks_sorted : ∀ {locks : List LockedBalance} {i unlockable : ℕ} {x' : LockedScan},
    i + locks.length = N → (locks.Pairwise fun l l' => l.unlockTime < l'.unlockTime) →
    scanLocks now N locks i ⟨unlockable, 0, 0, []⟩ = .ok x' →
    x'.lockData = locks.filter (fun l => now < l.unlockTime) ∧ x'.locked = lockSum x'.lockData
  | [], _, _, x', _, _, h => by
    cases h
    exact ⟨rfl, rfl⟩
  | l :: locks, i, unlockable, x', hN, hsorted, h => by
    rw [List.length_cons] at hN
    obtain ⟨hlater, hsorted⟩ := List.pairwise_cons.1 hsorted
    unfold scanLocks at h
    by_cases hlt : now < l.unlockTime
    · rw [if_pos hlt] at h
      obtain ⟨size, hsize, h⟩ := bind_eq_ok.1 h
      obtain ⟨-, rfl⟩ := usub_eq_ok.1 hsize
      have hlen : N - i = locks.length + 1 := by omega
      dsimp only at h
      rw [if_pos rfl, hlen, assign_of (by simp), ok_bind] at h
      obtain ⟨idx, hi, h⟩ := bind_eq_ok.1 h
      obtain ⟨-, rfl⟩ := uadd_eq_ok.1 hi
      obtain ⟨n, hn, h⟩ := bind_eq_ok.1 h
      obtain ⟨-, rfl⟩ := uadd_eq_ok.1 hn
      have hall : ∀ l' ∈ l :: locks, now < l'.unlockTime := by
        rintro l' hl'
        rcases List.mem_cons.1 hl' with rfl | hl'
        · exact hlt
        · exact hlt.trans (hlater l' hl')
      have hrest : ∀ l' ∈ locks, now < l'.unlockTime := fun l' hl' => hall l' (by simp [hl'])
      obtain ⟨hlocked, hdata⟩ := scanLocks_rest hrest (List.cons_ne_nil l []) h
      have hfilter : (l :: locks).filter (fun l => now < l.unlockTime) = l :: locks :=
        List.filter_eq_self.2 fun l' hl' => decide_eq_true (hall l' hl')
      rw [hfilter, hdata]
      refine ⟨rfl, ?_⟩
      rw [hlocked, List.singleton_append, lockSum_cons]
      omega
    · rw [if_neg hlt] at h
      obtain ⟨n, -, h⟩ := bind_eq_ok.1 h
      rw [List.filter_cons_of_neg (by simpa using hlt)]
      exact scanLocks_sorted (by omega) hsorted h

/-! ## The view -/

/-- In every reachable world `lockedBalances` returns and splits the locked balance of a
user in two. As long as unlock times fit in `uint32`, its list is exactly the locks that are
neither processed nor expired. -/
theorem lockedBalances_partition {log : List Event} (h : Reachable log w) (u : Address) :
    ∃ r, lockedBalances w.locker w.now u = .ok r ∧
      r.total = (w.locker.ledger.balances u).locked ∧ r.unlockable + r.locked = r.total ∧
      (Fits w.now → r.lockData =
          ((w.locker.ledger.userLocks u).drop (w.locker.ledger.balances u).nextUnlockIndex).filter
            (fun l => w.now < l.unlockTime) ∧
        lockSum r.lockData = r.locked) := by
  obtain ⟨first, hinv⟩ := h.ledgerInv
  have hlt := h.locked_lt u
  have hsum := hinv.sums.locked u
  have hnext := hinv.sums.next_le u
  set next := (w.locker.ledger.balances u).nextUnlockIndex
  set locks := w.locker.ledger.userLocks u with hlocks
  have hN : next + (locks.drop next).length = locks.length := by
    rw [List.length_drop]
    omega
  obtain ⟨x, hx, hxs⟩ := @exists_scanLocks w.now locks.length (locks.drop next) next ⟨0, 0, 0, []⟩
    hN (fun l hl => hinv.sums.pos u l (List.mem_of_mem_drop hl)) (.inl rfl) (by dsimp only; omega)
    (by dsimp only; omega)
  refine ⟨⟨(w.locker.ledger.balances u).locked, x.unlockable, x.locked, x.lockData⟩, ?_, rfl, ?_,
    fun hfit => ?_⟩
  · unfold lockedBalances
    dsimp only
    rw [hx, ok_bind]
  · dsimp only at hxs ⊢
    omega
  · obtain ⟨n, hd⟩ := hinv.dated hfit
    have hsorted := ((hd.dated u).sorted.sublist (List.drop_sublist next locks))
    obtain ⟨hdata, hlocked⟩ := scanLocks_sorted hN hsorted hx
    exact ⟨hdata, hlocked.symm⟩

/-- Two locks a week apart, of which one has expired and one was topped up. -/
theorem lockedBalances_partition_run : ∃ w : World, Fits w.now ∧
    lockedBalances w.locker w.now 1 = .ok ⟨15, 10, 5, [⟨5, 38 * rewardsDuration⟩]⟩ ∧
    [(⟨5, 38 * rewardsDuration⟩ : LockedBalance)] =
      ((w.locker.ledger.userLocks 1).drop (w.locker.ledger.balances 1).nextUnlockIndex).filter
        fun l => w.now < l.unlockTime := by
  let start := 20 * rewardsDuration
  let log : List Event := [⟨start, 1, .lock 1 10⟩, ⟨start + rewardsDuration, 1, .lock 1 2⟩,
    ⟨start + rewardsDuration, 1, .lock 1 3⟩, ⟨37 * rewardsDuration, 2, .checkpointEpoch⟩]
  let w := (World.initial start).after log
  have h : Reachable log w := ⟨_, World.initial_deployed (by decide), .after (by decide +kernel)⟩
  have hfit : Fits w.now := by decide +kernel
  have hview : lockedBalances w.locker w.now 1 = .ok ⟨15, 10, 5, [⟨5, 38 * rewardsDuration⟩]⟩ := by
    decide +kernel
  obtain ⟨r, hr, -, -, hdata⟩ := lockedBalances_partition h 1
  rw [hview] at hr
  cases hr
  exact ⟨w, hfit, hview, (hdata hfit).1⟩

/-- In week 7085 the unlock time of a lock wraps around in `uint32`. It looks expired, an
earlier lock does not, and the array, allocated for both, ends with a zero. -/
theorem lockedBalances_truncated : ¬∀ {log : List Event} {w : World}, Reachable log w → ∀ u,
    ∃ r, lockedBalances w.locker w.now u = .ok r ∧
      r.lockData =
        ((w.locker.ledger.userLocks u).drop (w.locker.ledger.balances u).nextUnlockIndex).filter
          fun l => w.now < l.unlockTime := by
  intro h
  let log : List Event := [⟨7084 * rewardsDuration, 1, .lock 1 10⟩,
    ⟨7085 * rewardsDuration, 1, .lock 1 5⟩]
  let w := (World.initial (7084 * rewardsDuration)).after log
  have hrun : Reachable log w :=
    ⟨_, World.initial_deployed (by decide), .after (by decide +kernel)⟩
  obtain ⟨r, hr, hdata⟩ := h hrun 1
  have hview : lockedBalances w.locker w.now 1 =
      .ok ⟨15, 5, 10, [⟨10, 7101 * rewardsDuration⟩, ⟨0, 0⟩]⟩ := by decide +kernel
  rw [hview] at hr
  cases hr
  have hone : (((w.locker.ledger.userLocks 1).drop
      (w.locker.ledger.balances 1).nextUnlockIndex).filter
        fun l => w.now < l.unlockTime).length = 1 := by decide +kernel
  rw [← hdata] at hone
  exact absurd hone (by decide)

end Aura.Locker
