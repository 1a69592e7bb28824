import Aura.Locker.Changes

/-!
# AuraLocker : the ledger

Two invariants of the ledger. `Sums` says that balances and supply are the sums they
stand for and holds without any assumption. `Dated` says that epochs are contiguous weeks
with the amounts locked in them, that lock records are well dated, and which records have
been processed; it holds as long as unlock times fit in the `uint32` they are stored in.
-/

open Evm Function Finset

namespace Aura.Locker

open AuraMath

theorem epochOf_lt_lock (now : ℕ) : now + rewardsDuration < epochOf now + lockDuration := by
  simp only [epochOf, rewardsDuration, lockDuration]
  omega

/-! ## Sums -/

/-- Balances are what is left of the lock records, and the supply is the sum of balances. -/
structure Sums (now : ℕ) (s : Storage) : Prop where
  next_le : ∀ u, (s.ledger.balances u).nextUnlockIndex ≤ (s.ledger.userLocks u).length
  locked : ∀ u, (s.ledger.balances u).locked =
    lockSum ((s.ledger.userLocks u).drop (s.ledger.balances u).nextUnlockIndex)
  pos : ∀ u, ∀ l ∈ s.ledger.userLocks u, 0 < l.amount
  supply : s.ledger.lockedSupply = ∑ u, (s.ledger.balances u).locked
  /-- A last record that has been processed is no target for an increase. -/
  last : s.config.isShutdown = false → ∀ u l, (s.ledger.userLocks u).getLast? = some l →
    (s.ledger.balances u).nextUnlockIndex = (s.ledger.userLocks u).length →
      l.unlockTime ≤ now + rewardsDuration

theorem locked_le_sum (f : Address → Balances) (a : Address) :
    (f a).locked ≤ ∑ u, (f u).locked :=
  single_le_sum (f := fun u => (f u).locked) (fun _ _ => Nat.zero_le _) (mem_univ a)

/-- `Sums` speaks of the ledger and of the shutdown only. -/
theorem Sums.congr {now now' : ℕ} {s s' : Storage} (h : Sums now s) (hn : now ≤ now')
    (hb : s'.ledger.balances = s.ledger.balances) (hl : s'.ledger.userLocks = s.ledger.userLocks)
    (hs : s'.ledger.lockedSupply = s.ledger.lockedSupply)
    (hsd : s.config.isShutdown = true → s'.config.isShutdown = true) : Sums now' s' := by
  refine ⟨?_, ?_, ?_, ?_, ?_⟩
  · rw [hb, hl]
    exact h.next_le
  · rw [hb, hl]
    exact h.locked
  · rw [hl]
    exact h.pos
  · rw [hb, hs]
    exact h.supply
  · rw [hb, hl]
    intro hsd' u l hlast hnext
    have hsd₀ : s.config.isShutdown = false := by
      by_contra hne
      rw [hsd (by simpa using hne)] at hsd'
      cases hsd'
    have := h.last hsd₀ u l hlast hnext
    omega

/-- `_checkpointEpoch` keeps everything but the epochs. -/
theorem checkpointEpoch_keeps {l l' : Ledger} {now : ℕ} (h : _checkpointEpoch l now = .ok l') :
    l'.balances = l.balances ∧ l'.userLocks = l.userLocks ∧ l'.lockedSupply = l.lockedSupply := by
  obtain ⟨es, rfl⟩ := checkpointEpoch_eq_ok h
  exact ⟨rfl, rfl, rfl⟩

theorem Sums.lock {s s' : Storage} {now n : ℕ} {a : Address} (h : Sums now s)
    (hl : LockDone s s' now a n) : Sums now s' := by
  obtain ⟨locks, hadd, -, hsup', hb', hlocks'⟩ := hl.ledger_eq
  -- an increased record has not been processed, because it unlocks after `now` plus a week
  have hopen : ∀ x, (s.ledger.userLocks a).getLast? = some x →
      epochOf now + lockDuration ≤ x.unlockTime →
      (s.ledger.balances a).nextUnlockIndex < (s.ledger.userLocks a).length := by
    intro x hx hT
    refine (h.next_le a).lt_of_ne fun he => ?_
    have := h.last hl.notShutdown a x hx he
    have := epochOf_lt_lock now
    omega
  have hlen := addLock_length hadd
  have hdrop := addLock_lockSum_drop hadd (h.next_le a) hopen
  refine ⟨fun u => ?_, fun u => ?_, fun u => ?_, ?_, fun _ u => ?_⟩
  · by_cases hu : u = a
    · subst hu
      simpa [hb', hlocks'] using (h.next_le u).trans hlen
    · simpa [hb', hlocks', hu] using h.next_le u
  · by_cases hu : u = a
    · subst hu
      simp [hb', hlocks', hdrop, h.locked u]
    · simpa [hb', hlocks', hu] using h.locked u
  · by_cases hu : u = a
    · subst hu
      simpa [hlocks'] using addLock_pos hadd hl.amount_pos (h.pos u)
    · simpa [hlocks', hu] using h.pos u
  · have := sum_update_map Balances.locked s.ledger.balances a
      { s.ledger.balances a with locked := (s.ledger.balances a).locked + n }
    simp only [hsup', hb', h.supply] at this ⊢
    omega
  · intro x hx hnext
    by_cases hu : u = a
    · subst hu
      simp only [hb', hlocks', update_self] at hx hnext
      -- the last record was just made or increased, so it is not processed
      exfalso
      rcases addLock_eq_ok hadd with ⟨rfl, -⟩ | ⟨pre, y, hpre, hT, rfl⟩
      · have := h.next_le u
        simp at hnext
        omega
      · have := hopen y (by simp [hpre]) hT
        simp [hpre] at hnext this
        omega
    · simp only [hb', hlocks', update_of_ne hu] at hx hnext
      exact h.last hl.notShutdown u x hx hnext

/-- Locks expire at most one week early. -/
theorem expiry_le (now d : ℕ) (relock : Bool) :
    (if d = 0 ∧ relock = true then now + rewardsDuration else now - d) ≤ now + rewardsDuration := by
  split_ifs <;> omega

/-- What is left of the records of an account after some of them expired. -/
theorem Sums.left_of_expire {s s' : Storage} {now d : ℕ} {a : Address} {relock : Bool}
    {x : Expired} (h : Sums now s) (hx : ExpireDone s s' now a relock d x) :
    x.nextUnlockIndex ≤ (s.ledger.userLocks a).length ∧
      (s.ledger.balances a).locked - x.locked =
        lockSum ((s.ledger.userLocks a).drop x.nextUnlockIndex) ∧
      (s.config.isShutdown = false → ∀ l, (s.ledger.userLocks a).getLast? = some l →
        x.nextUnlockIndex = (s.ledger.userLocks a).length →
          l.unlockTime ≤ now + rewardsDuration) := by
  have hle := expiry_le now d relock
  have hlocked := h.locked a
  have hnext := h.next_le a
  have hpos := hx.locked_pos
  obtain ⟨-, -, ⟨hall, hn, hlast⟩ | ⟨-, pre, post, hsplit, hn, hlk, hpre, -⟩⟩ :=
    expired_eq_ok hx.expired
  · refine ⟨hn.le, by simp [hall, hn], fun hsd l hl _ => ?_⟩
    rcases hlast with hsd' | hlast
    · rw [hsd] at hsd'
      cases hsd'
    · exact (hlast l hl).trans hle
  · have hlen := congrArg List.length hsplit
    simp only [List.length_drop, List.length_append] at hlen
    refine ⟨by omega, ?_, fun _ l hl hend => ?_⟩
    · rw [hn, ← List.drop_drop, hsplit, List.drop_left, hlocked, hsplit, lockSum_append, hlk]
      omega
    · obtain rfl : post = [] := List.eq_nil_of_length_eq_zero (by omega)
      have hne : pre ≠ [] := by
        rintro rfl
        simp only [hlk, lockSum_nil] at hpos
        omega
      rw [List.append_nil] at hsplit
      have hlast : ((s.ledger.userLocks a).drop
          (s.ledger.balances a).nextUnlockIndex).getLast? = some l := by
        rw [List.getLast?_drop, if_neg, hl]
        have := List.length_pos_of_ne_nil hne
        omega
      rw [hsplit] at hlast
      exact (hpre l (List.mem_of_getLast? hlast)).trans hle

theorem Sums.expire {s s' : Storage} {now d : ℕ} {a : Address} {relock : Bool} {x : Expired}
    (h : Sums now s) (hx : ExpireDone s s' now a relock d x) : Sums now s' := by
  have hs' := hx.ledger
  have hsum := sum_update_map Balances.locked s.ledger.balances a
    ⟨(s.ledger.balances a).locked - x.locked, x.nextUnlockIndex⟩
  have hle' := hx.locked_le
  obtain ⟨hn, hlk, hlast⟩ := h.left_of_expire hx
  refine ⟨fun u => ?_, fun u => ?_, fun u => ?_, ?_, fun hsd u => ?_⟩
  · by_cases hu : u = a
    · subst hu
      simpa [hs'] using hn
    · simpa [hs', hu] using h.next_le u
  · by_cases hu : u = a
    · subst hu
      simpa [hs'] using hlk
    · simpa [hs', hu] using h.locked u
  · simpa [hs'] using h.pos u
  · have := h.supply
    simp only [hs'] at hsum ⊢
    omega
  · have hsd : s.config.isShutdown = false := hx.config ▸ hsd
    by_cases hu : u = a
    · subst hu
      simpa [hs'] using hlast hsd
    · simpa [hs', hu] using h.last hsd u

theorem Sums.emergencyWithdraw {s : Storage} {now : ℕ} (h : Sums now s) (u : Address)
    (hsd : s.config.isShutdown = true) : Sums now { s with ledger := { s.ledger with
      lockedSupply := s.ledger.lockedSupply - (s.ledger.balances u).locked
      balances := update s.ledger.balances u ⟨0, (s.ledger.userLocks u).length⟩ } } := by
  have hsum := sum_update_map Balances.locked s.ledger.balances u ⟨0, (s.ledger.userLocks u).length⟩
  have hle := locked_le_sum s.ledger.balances u
  have hsup := h.supply
  refine ⟨fun u' => ?_, fun u' => ?_, h.pos, ?_, fun hsd' => ?_⟩
  · by_cases hu : u' = u
    · subst hu
      simp
    · simpa [hu] using h.next_le u'
  · by_cases hu : u' = u
    · subst hu
      simp
    · simpa [hu] using h.locked u'
  · dsimp only at hsum ⊢
    omega
  · exact absurd (hsd.symm.trans hsd') (by decide)

theorem Deploys.sums {now : ℕ} {s : Storage} (h : Deploys now s) : Sums now s := by
  obtain ⟨-, self, owner, st, cc, cs, -, rfl⟩ := h
  exact ⟨by simp [deploy], by simp [deploy], by simp [deploy], by simp [deploy],
    by simp [deploy]⟩

/-- One change keeps the sums. -/
theorem Sums.change {now : ℕ} {s s' : Storage} (h : Sums now s) (hch : Change now s s') :
    Sums now s' := by
  cases hch with
  | other hl hv _ _ hsd => exact h.congr le_rfl (by rw [hl]) (by rw [hl]) (by rw [hl]) hsd
  | checkpoint hl _ hc =>
    obtain ⟨hb, hlocks, hsup⟩ := checkpointEpoch_keeps hl
    exact h.congr le_rfl hb hlocks hsup (by rw [hc]; exact id)
  | lock hl => exact h.lock hl
  | expire hx => exact h.expire hx
  | relock hx hl => exact (h.expire hx).lock hl
  | emergencyWithdraw hsd _ hs => exact hs ▸ h.emergencyWithdraw _ hsd

/-! ## Dates -/

/-- The epochs of the `len` weeks from `first` on, with supplies `S`. -/
def epochsFrom (first len : ℕ) (S : ℕ → ℕ) : List Epoch :=
  (List.range' first len).map fun k => ⟨S k, k * rewardsDuration⟩

/-- The amount that all users locked in week `k`. -/
def lockedIn (userLocks : Address → List LockedBalance) (k : ℕ) : ℕ :=
  ∑ u, amountAt (userLocks u) ((k + 17) * rewardsDuration)

theorem epochsFrom_succ (first len : ℕ) (S : ℕ → ℕ) : epochsFrom first (len + 1) S =
    epochsFrom first len S ++ [⟨S (first + len), (first + len) * rewardsDuration⟩] := by
  simp [epochsFrom, List.range'_1_concat]

theorem epochsFrom_append (first m n : ℕ) (S : ℕ → ℕ) :
    epochsFrom first m S ++ epochsFrom (first + m) n S = epochsFrom first (m + n) S := by
  rw [epochsFrom, epochsFrom, ← List.map_append, List.range'_append_1]
  rfl

theorem epochsFrom_congr {first len : ℕ} {S S' : ℕ → ℕ}
    (h : ∀ k, first ≤ k → k < first + len → S k = S' k) :
    epochsFrom first len S = epochsFrom first len S' := by
  refine List.map_congr_left fun k hk => ?_
  obtain ⟨h1, h2⟩ := List.mem_range'_1.1 hk
  rw [h k h1 h2]

/-- The loop of `_checkpointEpoch` adds `m` empty epochs. -/
theorem loop_epochs {currentEpoch : ℕ} (hfit : currentEpoch < 2 ^ 32) (m : ℕ) :
    ∀ (fuel k : ℕ) (es : List Epoch), m ≤ fuel → (k + m) * rewardsDuration = currentEpoch →
      loop fuel (fun r : ℕ × List Epoch => decide (r.1 ≠ currentEpoch))
        (fun r => do
          let nextEpochDate ← add r.1 rewardsDuration
          .ok (nextEpochDate, r.2 ++ [⟨0, trunc 32 nextEpochDate⟩]))
        (k * rewardsDuration, es) =
          .ok (currentEpoch, es ++ epochsFrom (k + 1) m fun _ => 0) := by
  induction m with
  | zero =>
    intro fuel k es _ hk
    rw [Nat.add_zero] at hk
    rw [loop_of_not fuel (by simp [hk])]
    simp [epochsFrom, hk]
  | succ m ih =>
    intro fuel k es hm hk
    obtain ⟨fuel, rfl⟩ : ∃ f, fuel = f + 1 := ⟨fuel - 1, by omega⟩
    have hlt : k * rewardsDuration < currentEpoch :=
      hk ▸ Nat.mul_lt_mul_of_pos_right (by omega) rewardsDuration_pos
    have hle : (k + 1) * rewardsDuration ≤ currentEpoch :=
      hk ▸ Nat.mul_le_mul_right _ (by omega)
    have hadd : add (k * rewardsDuration) rewardsDuration = .ok ((k + 1) * rewardsDuration) := by
      rw [Nat.succ_mul] at hle ⊢
      exact uadd_of (by omega)
    rw [loop_succ fuel (by simpa using hlt.ne)]
    dsimp only
    rw [hadd, ok_bind, ok_bind, trunc_of_lt (by omega),
      ih fuel (k + 1) _ (by omega) (by rw [← hk]; ring)]
    simp [epochsFrom, List.range'_succ]

/-- The epochs are the weeks from `first` to `first + n`, with what was locked in them;
all lock records are from those weeks, and only records that unlock at most a week after
the current epoch have been processed. -/
structure Dated (first n now : ℕ) (s : Storage) : Prop where
  epochs : s.ledger.epochs = epochsFrom first (n + 1) (lockedIn s.ledger.userLocks)
  current : first + n ≤ week now
  dated : ∀ u, WellDated (s.ledger.userLocks u) (first + n)
  since : ∀ u, ∀ l ∈ s.ledger.userLocks u, (first + 17) * rewardsDuration ≤ l.unlockTime
  bounded : ∀ k, lockedIn s.ledger.userLocks k < 2 ^ 224
  processed : s.config.isShutdown = false → ∀ u,
    ∀ l ∈ (s.ledger.userLocks u).take (s.ledger.balances u).nextUnlockIndex,
      l.unlockTime ≤ epochOf now + rewardsDuration

/-- Nothing was locked after the last week. -/
theorem Dated.lockedIn_eq_zero {first n now k : ℕ} {s : Storage} (h : Dated first n now s)
    (hk : first + n < k) : lockedIn s.ledger.userLocks k = 0 :=
  sum_eq_zero fun u _ => (h.dated u).amountAt_eq_zero (by omega)

/-- The last epoch. -/
theorem Dated.getLast {first n now : ℕ} {s : Storage} (h : Dated first n now s) :
    s.ledger.epochs.getLast? =
      some ⟨lockedIn s.ledger.userLocks (first + n), (first + n) * rewardsDuration⟩ := by
  rw [h.epochs, epochsFrom_succ, List.getLast?_concat]

/-- `_checkpointEpoch` adds the weeks up to now. -/
theorem Dated.checkpointEpoch_eq {first n now : ℕ} {s : Storage} (h : Dated first n now s)
    (hfit : Fits now) : _checkpointEpoch s.ledger now = .ok { s.ledger with
      epochs := epochsFrom first (week now - first + 1) (lockedIn s.ledger.userLocks) } := by
  have hcur := h.current
  have hlt : epochOf now < 2 ^ 32 := (Nat.le_add_right _ _).trans_lt hfit
  unfold _checkpointEpoch
  rw [last_eq_ok.2 h.getLast, ok_bind]
  dsimp only
  have hzero : epochsFrom (first + n + 1) (week now - (first + n)) (fun _ => 0) =
      epochsFrom (first + (n + 1)) (week now - (first + n)) (lockedIn s.ledger.userLocks) :=
    epochsFrom_congr fun k hk _ => (h.lockedIn_eq_zero (by omega)).symm
  rw [loop_epochs hlt (week now - (first + n)) _ _ _ _ _, ok_bind, hzero, h.epochs,
    epochsFrom_append]
  · have hlen : n + 1 + (week now - (first + n)) = week now - first + 1 := by omega
    rw [hlen]
    split_ifs with hlt'
    · rfl
    · -- the last epoch is the current one
      have hge : week now ≤ first + n :=
        Nat.le_of_mul_le_mul_right (not_lt.1 hlt') rewardsDuration_pos
      have hn : n = week now - first := by omega
      rw [← hn, ← h.epochs]
  · have : week now ≤ epochOf now := Nat.le_mul_of_pos_right _ rewardsDuration_pos
    omega
  · rw [epochOf_eq, Nat.add_sub_cancel' hcur]

theorem Dated.checkpoint {first n now : ℕ} {s : Storage} {l : Ledger} (h : Dated first n now s)
    (hfit : Fits now) (hl : _checkpointEpoch s.ledger now = .ok l) :
    l = { s.ledger with
      epochs := epochsFrom first (week now - first + 1) (lockedIn s.ledger.userLocks) } :=
  (Except.ok.inj ((h.checkpointEpoch_eq hfit).symm.trans hl)).symm

/-- The ledger after a checkpoint. -/
theorem Dated.of_checkpoint {first n now : ℕ} {s s' : Storage} (h : Dated first n now s)
    (hfit : Fits now) (hl : _checkpointEpoch s.ledger now = .ok s'.ledger)
    (hc : s'.config = s.config) : Dated first (week now - first) now s' := by
  have hcur := h.current
  have hl' := h.checkpoint hfit hl
  refine ⟨by rw [hl'], by omega, fun u => ?_, fun u => ?_, fun k => ?_, fun hsd u => ?_⟩
  · rw [hl']
    exact (h.dated u).mono (by omega)
  · rw [hl']
    exact h.since u
  · rw [hl']
    exact h.bounded k
  · rw [hl']
    exact h.processed (hc ▸ hsd) u

/-- `Dated` does not depend on rewards, votes and supply. -/
theorem Dated.congr {first n now now' : ℕ} {s s' : Storage} (h : Dated first n now s)
    (hn : now ≤ now') (he : s'.ledger.epochs = s.ledger.epochs)
    (hl : s'.ledger.userLocks = s.ledger.userLocks)
    (hp : s'.config.isShutdown = false → s.config.isShutdown = false ∧
      s'.ledger.balances = s.ledger.balances) : Dated first n now' s' := by
  refine ⟨by rw [he, hl, h.epochs], h.current.trans (week_mono hn), fun u => ?_, fun u => ?_,
    fun k => ?_, fun hsd u l hm => ?_⟩
  · rw [hl]
    exact h.dated u
  · rw [hl]
    exact h.since u
  · rw [hl]
    exact h.bounded k
  · obtain ⟨hsd', hb⟩ := hp hsd
    rw [hb, hl] at hm
    have hle : epochOf now ≤ epochOf now' := Nat.mul_le_mul_right _ (week_mono hn)
    have := h.processed hsd' u l hm
    omega

theorem epochOf_add_lock (now : ℕ) :
    epochOf now + lockDuration = (week now + 17) * rewardsDuration := by
  rw [epochOf_eq, lockDuration, Nat.add_mul, Nat.mul_comm 17]

/-- What was locked by now unlocks within `lockDuration` from the next epoch. -/
theorem WellDated.unlockTime_lt {locks : List LockedBalance} {now : ℕ}
    (h : WellDated locks (week now)) :
    ∀ l ∈ locks, l.unlockTime < epochOf now + rewardsDuration + lockDuration := by
  intro l hl
  obtain ⟨k, hk, hu⟩ := h.grid l hl
  have hle : l.unlockTime ≤ epochOf now + lockDuration := by
    rw [hu, epochOf_add_lock]
    exact Nat.mul_le_mul_right _ (by omega)
  have := rewardsDuration_pos
  omega

/-- What `_lock` did to the amounts that unlock at a time. -/
theorem Dated.amountAt_lock {first n now m : ℕ} {s s' : Storage} {a : Address}
    (h : Dated first n now s) (hfit : Fits now) (hl : LockDone s s' now a m) (u : Address) (t : ℕ) :
    amountAt (s'.ledger.userLocks u) t = amountAt (s.ledger.userLocks u) t +
      if u = a ∧ t = epochOf now + lockDuration then m else 0 := by
  obtain ⟨locks, hadd, -, -, -, hlocks⟩ := hl.ledger_eq
  unfold Fits at hfit
  rw [epochOf_add_lock] at hfit hadd ⊢
  have hdated := (h.dated a).mono h.current
  rw [hlocks]
  by_cases hu : u = a
  · subst hu
    simp [(hdated.addLock hfit hadd).2.1]
  · simp [hu]

/-- What `_lock` did to the amounts locked in a week. -/
theorem Dated.lockedIn_lock {first n now m : ℕ} {s s' : Storage} {a : Address}
    (h : Dated first n now s) (hfit : Fits now) (hl : LockDone s s' now a m) (k : ℕ) :
    lockedIn s'.ledger.userLocks k =
      lockedIn s.ledger.userLocks k + if k = week now then m else 0 := by
  unfold lockedIn
  simp only [h.amountAt_lock hfit hl, sum_add_distrib, epochOf_add_lock,
    Nat.mul_right_cancel_iff rewardsDuration_pos, Nat.add_right_cancel_iff, ite_and,
    sum_ite_eq', mem_univ, if_true]

/-- A lock leaves the processed records alone. -/
theorem Dated.take_lock {first n now m : ℕ} {s s' : Storage} {a : Address} (h : Dated first n now s)
    (hs : Sums now s) (hfit : Fits now) (hl : LockDone s s' now a m) (u : Address) :
    (s'.ledger.userLocks u).take (s'.ledger.balances u).nextUnlockIndex =
      (s.ledger.userLocks u).take (s.ledger.balances u).nextUnlockIndex := by
  obtain ⟨locks, hadd, -, -, hb, hlocks⟩ := hl.ledger_eq
  rw [hlocks, hb]
  by_cases hu : u = a
  · subst hu
    unfold Fits at hfit
    rw [epochOf_add_lock] at hfit hadd
    obtain ⟨-, -, pre, x, rfl, hx, hpre⟩ := ((h.dated u).mono h.current).addLock hfit hadd
    simp only [update_self]
    rcases hpre with he | ⟨y, he, hy⟩
    · have hnext : (s.ledger.balances u).nextUnlockIndex ≤ pre.length := he ▸ hs.next_le u
      rw [he, List.take_append_of_le_length hnext]
    · -- a record that is increased has not been processed
      have hnext : (s.ledger.balances u).nextUnlockIndex ≤ pre.length := by
        by_contra hlt
        have hm : y ∈ (s.ledger.userLocks u).take (s.ledger.balances u).nextUnlockIndex := by
          rw [he, List.take_of_length_le (by simp; omega)]
          simp
        have := h.processed hl.notShutdown u y hm
        rw [hy, hx, ← epochOf_add_lock] at this
        have := epochOf_lt_lock now
        have := epochOf_le now
        omega
      rw [he, List.take_append_of_le_length hnext, List.take_append_of_le_length hnext]
  · simp [hu]

theorem Dated.lock {first n now m : ℕ} {s s' : Storage} {a : Address} (h : Dated first n now s)
    (hs : Sums now s) (hfit : Fits now) (hl : LockDone s s' now a m) :
    Dated first (week now - first) now s' := by
  have hcur := h.current
  have hcur' : first + (week now - first) = week now := by omega
  obtain ⟨l, hck, hlk⟩ := hl.ledger
  have hl' := h.checkpoint hfit hck
  obtain ⟨_, e, -, he, -, hbound, hs'⟩ := lockLedger_eq_ok hlk
  obtain ⟨locks, hadd, -, -, -, hlocks⟩ := hl.ledger_eq
  have hfit' : (week now + 17) * rewardsDuration < 2 ^ 32 := epochOf_add_lock now ▸ hfit
  rw [epochOf_add_lock] at hadd
  obtain ⟨hwd, -, pre, x, rfl, hx, hpre⟩ := ((h.dated a).mono hcur).addLock hfit' hadd
  have hlast : l.epochs = epochsFrom first (week now - first) (lockedIn s.ledger.userLocks) ++
      [⟨lockedIn s.ledger.userLocks (week now), week now * rewardsDuration⟩] := by
    rw [hl', epochsFrom_succ, hcur']
  rw [hlast, List.getLast?_concat, Option.some_inj] at he
  refine ⟨?_, by omega, fun u => ?_, fun u => ?_, fun k => ?_, fun _ u => ?_⟩
  · -- only the supply of the last epoch changes
    have hS : epochsFrom first (week now - first) (lockedIn s'.ledger.userLocks) =
        epochsFrom first (week now - first) (lockedIn s.ledger.userLocks) :=
      epochsFrom_congr fun k _ hk => by
        rw [h.lockedIn_lock hfit hl, if_neg (by omega), Nat.add_zero]
    rw [epochsFrom_succ, hcur', hS, h.lockedIn_lock hfit hl, if_pos rfl, hs', hlast, ← he,
      List.dropLast_concat]
  · rw [hlocks, hcur']
    by_cases hu : u = a
    · subst hu
      simpa using hwd
    · simpa [hu] using (h.dated u).mono hcur
  · rw [hlocks]
    by_cases hu : u = a
    · subst hu
      have hnew : (first + 17) * rewardsDuration ≤ x.unlockTime := by
        rw [hx]
        exact Nat.mul_le_mul_right _ (by omega)
      have hold := h.since u
      simp only [update_self, List.mem_append, List.mem_singleton]
      rintro l (hm | rfl)
      · refine hold l ?_
        rcases hpre with he | ⟨y, he, -⟩ <;> rw [he] <;> simp [hm]
      · exact hnew
    · simpa [hu] using h.since u
  · have hk := h.bounded k
    rw [← he] at hbound
    dsimp only at hbound
    rw [h.lockedIn_lock hfit hl]
    split_ifs with hnow
    · rw [hnow]
      exact hbound
    · rw [Nat.add_zero]
      exact hk
  · rw [h.take_lock hs hfit hl]
    exact h.processed hl.notShutdown u

/-- A multiple of a week that lies at most a week ahead. -/
theorem le_epochOf_add {now j : ℕ} (h : j * rewardsDuration ≤ now + rewardsDuration) :
    j * rewardsDuration ≤ epochOf now + rewardsDuration := by
  simp only [epochOf, rewardsDuration] at *
  omega

/-- Before a shutdown, the records that are left split into those that expire and those
that unlock after the expiry time. -/
theorem Dated.expired_split {first n now d : ℕ} {s s' : Storage} {a : Address} {relock : Bool}
    {x : Expired} (h : Dated first n now s) (hs : Sums now s)
    (hx : ExpireDone s s' now a relock d x) (hsd : s.config.isShutdown = false) :
    ∃ pre post, (s.ledger.userLocks a).drop (s.ledger.balances a).nextUnlockIndex = pre ++ post ∧
      x.nextUnlockIndex = (s.ledger.balances a).nextUnlockIndex + pre.length ∧
      x.locked = lockSum pre ∧
      (∀ l ∈ pre, l.unlockTime ≤
        if d = 0 ∧ relock = true then now + rewardsDuration else now - d) ∧
      ∀ l ∈ post, (if d = 0 ∧ relock = true then now + rewardsDuration else now - d) <
        l.unlockTime := by
  have hsorted := (h.dated a).sorted
  obtain ⟨-, -, ⟨hall, hn, hlast⟩ | ⟨-, pre, post, hsplit, hn, hlk, hpre, hpost⟩⟩ :=
    expired_eq_ok hx.expired
  · have hlast := hlast.resolve_left (by simp [hsd])
    have hnext := hs.next_le a
    refine ⟨_, [], (List.append_nil _).symm, ?_, by rw [hall, hs.locked a], fun l hm => ?_, by simp⟩
    · rw [hn, List.length_drop]
      omega
    · -- no record unlocks after the last one
      have hm := List.mem_of_mem_drop hm
      obtain ⟨y, hy⟩ := Option.ne_none_iff_exists'.1
        (mt List.getLast?_eq_none_iff.1 (List.ne_nil_of_mem hm))
      exact ((h.dated a).le_last hm hy).trans (hlast y hy)
  · refine ⟨pre, post, hsplit, hn, hlk, hpre, fun l hm => ?_⟩
    have hdrop := hsorted.drop (i := (s.ledger.balances a).nextUnlockIndex)
    rw [hsplit] at hdrop
    cases post with
    | nil => cases hm
    | cons y post =>
      refine (hpost y rfl).trans_le ?_
      rcases List.mem_cons.1 hm with rfl | hm
      · exact le_rfl
      · exact ((List.pairwise_cons.1 (List.pairwise_append.1 hdrop).2.1).1 l hm).le

/-- The processed records after some expired. -/
theorem ExpireDone.take_eq {now d : ℕ} {s s' : Storage} {a : Address} {relock : Bool}
    {x : Expired} {pre post : List LockedBalance} (hx : ExpireDone s s' now a relock d x)
    (hsplit : (s.ledger.userLocks a).drop (s.ledger.balances a).nextUnlockIndex = pre ++ post)
    (hn : x.nextUnlockIndex = (s.ledger.balances a).nextUnlockIndex + pre.length) :
    (s'.ledger.userLocks a).take (s'.ledger.balances a).nextUnlockIndex =
      (s.ledger.userLocks a).take (s.ledger.balances a).nextUnlockIndex ++ pre := by
  rw [hx.ledger]
  simp only [update_self]
  rw [hn, List.take_add, hsplit, List.take_left]

theorem Dated.expire {first n now d : ℕ} {s s' : Storage} {a : Address} {relock : Bool}
    {x : Expired} (h : Dated first n now s) (hs : Sums now s)
    (hx : ExpireDone s s' now a relock d x) : Dated first n now s' := by
  have hs' := hx.ledger
  refine ⟨by rw [hs', h.epochs], h.current, fun u => ?_, fun u => ?_, fun k => ?_, fun hsd u => ?_⟩
  · rw [hs']
    exact h.dated u
  · rw [hs']
    exact h.since u
  · rw [hs']
    exact h.bounded k
  · have hsd₀ : s.config.isShutdown = false := hx.config ▸ hsd
    by_cases hu : u = a
    · subst hu
      obtain ⟨pre, post, hsplit, hn, -, hpre, -⟩ := h.expired_split hs hx hsd₀
      rw [hx.take_eq hsplit hn]
      intro l hm
      rcases List.mem_append.1 hm with hm | hm
      · exact h.processed hsd₀ u l hm
      · have hmem : l ∈ s.ledger.userLocks u :=
          List.mem_of_mem_drop (hsplit ▸ List.mem_append_left post hm)
        have hle := (hpre l hm).trans (expiry_le now d relock)
        obtain ⟨k, -, hk⟩ := (h.dated u).grid l hmem
        rw [hk] at hle ⊢
        exact le_epochOf_add hle
    · simpa [hs', hu] using h.processed hsd₀ u

/-- The ledger at a deployment. -/
theorem Deploys.dated {now : ℕ} {s : Storage} (h : Deploys now s) (hfit : Fits now) :
    Dated (week now) 0 now s := by
  obtain ⟨-, self, owner, st, cc, cs, -, rfl⟩ := h
  have hlt : epochOf now < 2 ^ 32 := (Nat.le_add_right _ _).trans_lt hfit
  refine ⟨?_, le_rfl, fun u => wellDated_nil _, by simp [deploy], fun k => ?_, by simp [deploy]⟩
  swap
  · simp [deploy, lockedIn]
  rw [epochOf_eq] at hlt
  simp [deploy, epochsFrom, lockedIn, epochOf_eq, trunc_of_lt hlt]

/-- Sums and, as long as unlock times fit, dates. -/
structure LedgerInv (first now : ℕ) (s : Storage) : Prop where
  sums : Sums now s
  dated : Fits now → ∃ n, Dated first n now s

theorem Deploys.ledgerInv {now : ℕ} {s : Storage} (h : Deploys now s) :
    LedgerInv (week now) now s :=
  ⟨h.sums, fun hfit => ⟨0, h.dated hfit⟩⟩

/-- One change keeps the ledger in order. -/
theorem LedgerInv.change {first now : ℕ} {s s' : Storage} (h : LedgerInv first now s)
    (hch : Change now s s') : LedgerInv first now s' := by
  refine ⟨h.sums.change hch, fun hfit => ?_⟩
  obtain ⟨n, hd⟩ := h.dated hfit
  cases hch with
  | other hl _ _ _ hsd =>
    refine ⟨n, hd.congr le_rfl (by rw [hl]) (by rw [hl]) fun hsd' => ⟨?_, by rw [hl]⟩⟩
    by_contra hne
    rw [hsd (by simpa using hne)] at hsd'
    cases hsd'
  | checkpoint hl _ hc => exact ⟨_, hd.of_checkpoint hfit hl hc⟩
  | lock hl => exact ⟨_, hd.lock h.sums hfit hl⟩
  | expire hx => exact ⟨n, hd.expire h.sums hx⟩
  | relock hx hl => exact ⟨_, (hd.expire h.sums hx).lock (h.sums.expire hx) hfit hl⟩
  | emergencyWithdraw hsd _ hs =>
    subst hs
    exact ⟨n, hd.congr le_rfl rfl rfl fun hsd' => absurd (hsd.symm.trans hsd') (by decide)⟩

theorem LedgerInv.time {first now now' : ℕ} {s : Storage} (h : LedgerInv first now s)
    (hn : now ≤ now') : LedgerInv first now' s := by
  refine ⟨h.sums.congr hn rfl rfl rfl id, fun hfit => ?_⟩
  obtain ⟨n, hd⟩ := h.dated (hfit.mono hn)
  exact ⟨n, hd.congr hn rfl rfl fun hsd => ⟨hsd, rfl⟩⟩

theorem LedgerInv.delegate {first now : ℕ} {s s' : Storage} {u D : Address}
    (h : LedgerInv first now s) (hd : Locker.delegate s now u D = .ok s') :
    LedgerInv first now s' := by
  obtain ⟨-, -, -, _, _, -, -, -, hs⟩ := delegate_eq_ok hd
  rw [hs]
  refine ⟨h.sums.congr le_rfl rfl rfl rfl id, fun hfit => ?_⟩
  obtain ⟨n, hdt⟩ := h.dated hfit
  exact ⟨n, hdt.congr le_rfl rfl rfl fun hsd => ⟨hsd, rfl⟩⟩

theorem inductive_ledgerInv (first : ℕ) : Inductive fun _ now s => LedgerInv first now s where
  time h hn := h.time hn
  change h hch := h.change hch
  delegate h hd := h.delegate hd
  log h _ := h

/-- The ledger is in order in every run from a deployment. -/
theorem Deployed.ledgerInv {log : List Event} {w₀ w : World} (h₀ : Deployed w₀)
    (hs : Steps w₀ log w) : LedgerInv (week w₀.now) w.now w.locker :=
  (inductive_ledgerInv _).steps [] h₀.deploys.ledgerInv hs

theorem Reachable.ledgerInv {log : List Event} {w : World} (h : Reachable log w) :
    ∃ first, LedgerInv first w.now w.locker :=
  let ⟨_, h₀, hs⟩ := h
  ⟨_, h₀.ledgerInv hs⟩

end Aura.Locker
