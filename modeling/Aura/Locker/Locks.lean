import Aura.Locker.Actions

/-!
# AuraLocker : lock records

What the list of lock records of one user says. `amountAt` is the amount that unlocks at
a time and `activeAmount` the amount whose lock epoch lies strictly before an epoch start
and whose unlock time lies strictly after it. `WellDated locks n` are the records of a
user all of whose locks were made in weeks up to `n` : the unlock times are strictly
increasing multiples of one week, seventeen weeks after the lock.

`addLock` on such a list changes one amount (`WellDated.addLock`), and the loop of
`balanceAtEpochOf` computes `activeAmount` (`WellDated.sumLocks_eq`).
-/

open Evm Finset

namespace Aura.Locker

open AuraMath

/-- The number of the week of `t`. -/
def week (t : ℕ) : ℕ :=
  t / rewardsDuration

theorem epochOf_eq (t : ℕ) : epochOf t = week t * rewardsDuration :=
  rfl

theorem rewardsDuration_pos : 0 < rewardsDuration := by
  decide

theorem lockDuration_eq : lockDuration = 17 * rewardsDuration :=
  Nat.mul_comm _ _

theorem week_mono {t t' : ℕ} (h : t ≤ t') : week t ≤ week t' :=
  Nat.div_le_div_right h

theorem epochOf_le (t : ℕ) : epochOf t ≤ t :=
  Nat.div_mul_le_self t rewardsDuration

theorem lt_epochOf_add (t : ℕ) : t < epochOf t + rewardsDuration := by
  simp only [epochOf, rewardsDuration]
  omega

/-- The unlock time of a lock made at `now` fits in the `uint32` it is stored in. -/
def Fits (now : ℕ) : Prop :=
  epochOf now + lockDuration < 2 ^ 32

instance (now : ℕ) : Decidable (Fits now) :=
  inferInstanceAs (Decidable (_ < _))

theorem Fits.mono {t t' : ℕ} (h : t ≤ t') (hf : Fits t') : Fits t := by
  have hle : epochOf t ≤ epochOf t' := Nat.mul_le_mul_right _ (week_mono h)
  exact (Nat.add_le_add_right hle _).trans_lt hf

/-! ## Sums over lock records -/

/-- The sum of the amounts of all records. -/
def lockSum (locks : List LockedBalance) : ℕ :=
  (locks.map (·.amount)).sum

/-- The amount that unlocks at `t`. -/
def amountAt (locks : List LockedBalance) (t : ℕ) : ℕ :=
  (locks.map fun l => if l.unlockTime = t then l.amount else 0).sum

/-- The amount locked strictly before the epoch start `E` that unlocks strictly after it. -/
def activeAmount (locks : List LockedBalance) (E : ℕ) : ℕ :=
  (locks.map fun l =>
    if l.unlockTime < E + lockDuration ∧ E < l.unlockTime then l.amount else 0).sum

@[simp] theorem lockSum_nil : lockSum [] = 0 :=
  rfl

@[simp] theorem lockSum_cons (l : LockedBalance) (locks : List LockedBalance) :
    lockSum (l :: locks) = l.amount + lockSum locks := by
  simp [lockSum]

@[simp] theorem lockSum_append (xs ys : List LockedBalance) :
    lockSum (xs ++ ys) = lockSum xs + lockSum ys := by
  simp [lockSum]

@[simp] theorem amountAt_nil (t : ℕ) : amountAt [] t = 0 :=
  rfl

@[simp] theorem amountAt_append (xs ys : List LockedBalance) (t : ℕ) :
    amountAt (xs ++ ys) t = amountAt xs t + amountAt ys t := by
  simp [amountAt]

@[simp] theorem amountAt_cons (l : LockedBalance) (locks : List LockedBalance) (t : ℕ) :
    amountAt (l :: locks) t = (if l.unlockTime = t then l.amount else 0) + amountAt locks t := by
  simp [amountAt]

@[simp] theorem activeAmount_nil (E : ℕ) : activeAmount [] E = 0 :=
  rfl

@[simp] theorem activeAmount_cons (l : LockedBalance) (locks : List LockedBalance) (E : ℕ) :
    activeAmount (l :: locks) E =
      (if l.unlockTime < E + lockDuration ∧ E < l.unlockTime then l.amount else 0) +
        activeAmount locks E := by
  simp [activeAmount]

@[simp] theorem activeAmount_append (xs ys : List LockedBalance) (E : ℕ) :
    activeAmount (xs ++ ys) E = activeAmount xs E + activeAmount ys E := by
  simp [activeAmount]

theorem activeAmount_le (locks : List LockedBalance) (E : ℕ) :
    activeAmount locks E ≤ lockSum locks := by
  induction locks with
  | nil => simp
  | cons l locks ih =>
    simp only [activeAmount_cons, lockSum_cons]
    split_ifs <;> omega

theorem amountAt_eq_zero {locks : List LockedBalance} {t : ℕ}
    (h : ∀ l ∈ locks, l.unlockTime ≠ t) : amountAt locks t = 0 := by
  induction locks with
  | nil => rfl
  | cons l locks ih =>
    rw [amountAt_cons, if_neg (h l (by simp)), ih fun l' hl' => h l' (by simp [hl'])]

theorem activeAmount_eq_zero {locks : List LockedBalance} {E : ℕ}
    (h : ∀ l ∈ locks, l.unlockTime ≤ E) : activeAmount locks E = 0 := by
  induction locks with
  | nil => rfl
  | cons l locks ih =>
    have := h l (by simp)
    rw [activeAmount_cons, if_neg (by omega), ih fun l' hl' => h l' (by simp [hl'])]

/-! ## Well dated records -/

/-- Lock records made in weeks up to `n`. -/
structure WellDated (locks : List LockedBalance) (n : ℕ) : Prop where
  sorted : locks.Pairwise fun l l' => l.unlockTime < l'.unlockTime
  grid : ∀ l ∈ locks, ∃ k ≤ n, l.unlockTime = (k + 17) * rewardsDuration

theorem wellDated_nil (n : ℕ) : WellDated [] n :=
  ⟨List.Pairwise.nil, by simp⟩

theorem WellDated.mono {locks : List LockedBalance} {n n' : ℕ} (h : WellDated locks n)
    (hn : n ≤ n') : WellDated locks n' :=
  ⟨h.sorted, fun l hl => let ⟨k, hk, ht⟩ := h.grid l hl; ⟨k, hk.trans hn, ht⟩⟩

theorem WellDated.append_left {xs ys : List LockedBalance} {n : ℕ} (h : WellDated (xs ++ ys) n) :
    WellDated xs n :=
  ⟨(List.pairwise_append.1 h.sorted).1, fun l hl => h.grid l (by simp [hl])⟩

/-- No element of a list with increasing keys is above the last one. -/
theorem le_getLast {α : Type} {key : α → ℕ} {l : List α} {a last : α}
    (h : l.Pairwise fun a b => key a < key b) (ha : a ∈ l) (hlast : l.getLast? = some last) :
    key a ≤ key last := by
  have hne := List.ne_nil_of_mem ha
  rw [List.getLast?_eq_some_getLast hne, Option.some_inj] at hlast
  subst hlast
  have hle : l.Pairwise fun a b => key a ≤ key b := h.imp fun hlt => hlt.le
  exact hle.rel_getLast_of_rel_getLast_getLast ha (le_refl (key (l.getLast hne)))

/-- No lock of a sorted list unlocks after the last one. -/
theorem WellDated.le_last {locks : List LockedBalance} {k : ℕ} (h : WellDated locks k)
    {l last : LockedBalance} (hl : l ∈ locks) (hlast : locks.getLast? = some last) :
    l.unlockTime ≤ last.unlockTime :=
  le_getLast h.sorted hl hlast

/-- An unlock time is in the future of the week of its lock. -/
theorem WellDated.amountAt_eq_zero {locks : List LockedBalance} {n j : ℕ} (h : WellDated locks n)
    (hj : n + 17 < j) : amountAt locks (j * rewardsDuration) = 0 := by
  refine Locker.amountAt_eq_zero fun l hl => ?_
  obtain ⟨k, hk, ht⟩ := h.grid l hl
  rw [ht]
  exact (Nat.mul_lt_mul_of_pos_right (by omega) rewardsDuration_pos).ne

/-- The active amount is made of what unlocks in the next sixteen weeks. -/
theorem WellDated.activeAmount_eq {locks : List LockedBalance} {n : ℕ} (h : WellDated locks n)
    (k : ℕ) : activeAmount locks (k * rewardsDuration) =
      ∑ i ∈ range 16, amountAt locks ((k + 1 + i) * rewardsDuration) := by
  have hgrid := h.grid
  clear h
  induction locks with
  | nil => simp
  | cons l locks ih =>
    obtain ⟨m, -, ht⟩ := hgrid l (by simp)
    simp only [activeAmount_cons, amountAt_cons, sum_add_distrib,
      ih fun l' hl' => hgrid l' (by simp [hl'])]
    rw [Nat.add_right_cancel_iff]
    split_ifs with hact
    · have hk : k < m + 17 ∧ m < k := by
        simp only [ht, rewardsDuration, lockDuration] at hact
        omega
      rw [sum_eq_single (m + 17 - (k + 1))]
      · rw [if_pos]
        rw [ht, show k + 1 + (m + 17 - (k + 1)) = m + 17 by omega]
      · refine fun i _ hi => if_neg fun he => hi ?_
        rw [ht] at he
        have := Nat.eq_of_mul_eq_mul_right rewardsDuration_pos he
        omega
      · exact fun hi => absurd (mem_range.2 (by omega)) hi
    · refine (sum_eq_zero fun i hi => if_neg fun he => hact ?_).symm
      have := mem_range.1 hi
      simp only [he, rewardsDuration, lockDuration]
      omega

/-- A positive amount is recorded at a time that some lock unlocks. -/
theorem WellDated.amountAt_of_mem {locks : List LockedBalance} {n : ℕ} (h : WellDated locks n)
    {l : LockedBalance} (hl : l ∈ locks) : amountAt locks l.unlockTime = l.amount := by
  obtain ⟨xs, ys, rfl⟩ := List.append_of_mem hl
  have hs := List.pairwise_append.1 h.sorted
  have hx : amountAt xs l.unlockTime = 0 :=
    Locker.amountAt_eq_zero fun l' hl' => (hs.2.2 l' hl' l (by simp)).ne
  have hy : amountAt ys l.unlockTime = 0 :=
    Locker.amountAt_eq_zero fun l' hl' => ((List.pairwise_cons.1 hs.2.1).1 l' hl').ne'
  simp [hx, hy]

/-! ## Adding a lock -/

/-- A lock is a new record, or an increase of the last one. -/
theorem addLock_eq_ok {locks locks' : List LockedBalance} {a T : ℕ}
    (h : addLock locks a T = .ok locks') :
    (locks' = locks ++ [⟨a, trunc 32 T⟩] ∧ ∀ l, locks.getLast? = some l → l.unlockTime < T) ∨
      ∃ pre l, locks = pre ++ [l] ∧ T ≤ l.unlockTime ∧
        locks' = pre ++ [{ l with amount := l.amount + a }] := by
  unfold addLock at h
  cases hl : locks.getLast? with
  | none =>
    rw [hl] at h
    exact .inl ⟨by simpa using h.symm, by simp⟩
  | some l =>
    rw [hl] at h
    dsimp only at h
    split_ifs at h with ht
    · refine .inl ⟨by simpa using h.symm, ?_⟩
      rintro l' h'
      cases h'
      exact ht
    · obtain ⟨amount, ha, h⟩ := bind_eq_ok.1 h
      obtain ⟨-, rfl⟩ := uadd_eq_ok.1 ha
      refine .inr ⟨locks.dropLast, l, (List.dropLast_append_getLast? l hl).symm, not_lt.1 ht, ?_⟩
      simpa using h.symm

/-- A lock adds to the records from `i` on only one that unlocks at `T` or later. -/
theorem mem_drop_of_addLock {locks locks' : List LockedBalance} {a T i : ℕ} (hT : T < 2 ^ 32)
    (h : addLock locks a T = .ok locks') {l : LockedBalance} (hl : l ∈ locks'.drop i) :
    l ∈ locks.drop i ∨ T ≤ l.unlockTime := by
  rcases addLock_eq_ok h with ⟨rfl, -⟩ | ⟨pre, y, rfl, hy, rfl⟩
  · rw [List.drop_append, List.mem_append] at hl
    rcases hl with hl | hl
    · exact .inl hl
    · obtain rfl := List.mem_singleton.1 (List.mem_of_mem_drop hl)
      exact .inr (trunc_of_lt hT).ge
  · rw [List.drop_append, List.mem_append] at hl
    rcases hl with hl | hl
    · rw [List.drop_append]
      exact .inl (List.mem_append_left _ hl)
    · obtain rfl := List.mem_singleton.1 (List.mem_of_mem_drop hl)
      exact .inr hy

theorem addLock_length {locks locks' : List LockedBalance} {a T : ℕ}
    (h : addLock locks a T = .ok locks') : locks.length ≤ locks'.length := by
  rcases addLock_eq_ok h with ⟨rfl, -⟩ | ⟨pre, l, rfl, -, rfl⟩ <;> simp

/-- Every record of the new list is new or was there with a smaller amount. -/
theorem addLock_pos {locks locks' : List LockedBalance} {a T : ℕ}
    (h : addLock locks a T = .ok locks') (ha : 0 < a) (hpos : ∀ l ∈ locks, 0 < l.amount) :
    ∀ l ∈ locks', 0 < l.amount := by
  rcases addLock_eq_ok h with ⟨rfl, -⟩ | ⟨pre, l, rfl, -, rfl⟩
  · intro l hl
    rcases List.mem_append.1 hl with hl | hl
    · exact hpos l hl
    · obtain rfl := List.mem_singleton.1 hl
      exact ha
  · intro l' hl'
    rcases List.mem_append.1 hl' with hl' | hl'
    · exact hpos l' (by simp [hl'])
    · obtain rfl := List.mem_singleton.1 hl'
      exact Nat.add_pos_right _ ha

/-- The records from an index on grow by the amount, if an increased record is among them. -/
theorem addLock_lockSum_drop {locks locks' : List LockedBalance} {a T i : ℕ}
    (h : addLock locks a T = .ok locks') (hi : i ≤ locks.length)
    (hlast : ∀ l, locks.getLast? = some l → T ≤ l.unlockTime → i < locks.length) :
    lockSum (locks'.drop i) = lockSum (locks.drop i) + a := by
  rcases addLock_eq_ok h with ⟨rfl, -⟩ | ⟨pre, l, rfl, hT, rfl⟩
  · rw [List.drop_append_of_le_length hi]
    simp
  · have hlt := hlast l (by simp) hT
    have hle : i ≤ pre.length := by simpa using Nat.lt_succ_iff.1 (by simpa using hlt)
    rw [List.drop_append_of_le_length hle, List.drop_append_of_le_length hle]
    simp [Nat.add_assoc]

/-- Adding a lock in week `n`. -/
theorem WellDated.addLock {locks locks' : List LockedBalance} {n a : ℕ} (h : WellDated locks n)
    (hfit : (n + 17) * rewardsDuration < 2 ^ 32)
    (hadd : addLock locks a ((n + 17) * rewardsDuration) = .ok locks') :
    WellDated locks' n ∧ (∀ t, amountAt locks' t =
      amountAt locks t + if t = (n + 17) * rewardsDuration then a else 0) ∧
      ∃ pre x, locks' = pre ++ [x] ∧ x.unlockTime = (n + 17) * rewardsDuration ∧
        (locks = pre ∨ ∃ y, locks = pre ++ [y] ∧ y.unlockTime = x.unlockTime) := by
  rcases addLock_eq_ok hadd with ⟨rfl, hlt⟩ | ⟨pre, l, rfl, hT, rfl⟩
  · rw [trunc_of_lt hfit]
    have hbelow : ∀ l ∈ locks, l.unlockTime < (n + 17) * rewardsDuration := by
      intro l hl
      obtain ⟨x, hx⟩ := Option.ne_none_iff_exists'.1
        (mt List.getLast?_eq_none_iff.1 (List.ne_nil_of_mem hl))
      exact (h.le_last hl hx).trans_lt (hlt x hx)
    refine ⟨⟨?_, ?_⟩, ?_, locks, _, rfl, rfl, .inl rfl⟩
    · refine List.pairwise_append.2 ⟨h.sorted, by simp, ?_⟩
      rintro l hl l' hl'
      obtain rfl := List.mem_singleton.1 hl'
      exact hbelow l hl
    · intro l hl
      rcases List.mem_append.1 hl with hl | hl
      · exact h.grid l hl
      · obtain rfl := List.mem_singleton.1 hl
        exact ⟨n, le_rfl, rfl⟩
    · intro t
      simp [eq_comm]
  · obtain ⟨k, hk, ht⟩ := h.grid l (by simp)
    have hkn : k = n := by
      rw [ht] at hT
      have := Nat.le_of_mul_le_mul_right hT rewardsDuration_pos
      omega
    subst hkn
    refine ⟨⟨?_, ?_⟩, ?_, pre, _, rfl, ht, .inr ⟨l, rfl, rfl⟩⟩
    · have hs := List.pairwise_append.1 h.sorted
      exact List.pairwise_append.2 ⟨hs.1, by simp, fun l' hl' l'' hl'' => by
        obtain rfl := List.mem_singleton.1 hl''
        exact hs.2.2 l' hl' l (by simp)⟩
    · intro l' hl'
      rcases List.mem_append.1 hl' with hl' | hl'
      · exact h.grid l' (by simp [hl'])
      · obtain rfl := List.mem_singleton.1 hl'
        exact ⟨k, le_rfl, ht⟩
    · intro t
      by_cases hteq : t = (k + 17) * rewardsDuration
      · subst hteq
        simp [ht, Nat.add_assoc]
      · have hne : l.unlockTime ≠ t := fun he => hteq (he ▸ ht)
        simp [hteq, hne]

/-! ## The loop of `balanceAtEpochOf` -/

/-- Records in descending order, as the loop visits them. -/
theorem sumLocks_eq {E cutoff : ℕ} (hE : cutoff + lockDuration = E) :
    ∀ {rev : List LockedBalance} {acc : ℕ},
      (rev.Pairwise fun l l' => l'.unlockTime < l.unlockTime) →
      (∀ l ∈ rev, ∃ e, l.unlockTime = e + lockDuration) → acc + activeAmount rev E < 2 ^ 256 →
      sumLocks E cutoff rev acc = .ok (acc + activeAmount rev E)
  | [], acc, _, _, _ => by simp [sumLocks]
  | l :: rev, acc, hs, hl, hb => by
    obtain ⟨hlast, hs⟩ := List.pairwise_cons.1 hs
    obtain ⟨e, he⟩ := hl l (by simp)
    have ih (acc' : ℕ) (h : acc' + activeAmount rev E < 2 ^ 256) :
        sumLocks E cutoff rev acc' = .ok (acc' + activeAmount rev E) :=
      sumLocks_eq hE hs (fun l' h' => hl l' (by simp [h'])) h
    simp only [activeAmount_cons, he] at hb
    simp only [sumLocks, sub, he, usub_add_right, ok_bind, activeAmount_cons]
    by_cases h1 : e < E
    · by_cases h2 : cutoff < e
      · rw [if_pos (by omega)] at hb
        rw [if_pos h1, if_pos h2, if_pos (by omega), add, uadd_of (by omega), ok_bind,
          ih _ (by omega), Nat.add_assoc]
      · -- the loop stops : the remaining records unlock even earlier
        have hrest : activeAmount rev E = 0 := by
          unfold activeAmount
          refine List.sum_eq_zero fun x hx => ?_
          obtain ⟨l', hm, rfl⟩ := List.mem_map.1 hx
          have := hlast l' hm
          exact if_neg (by omega)
        rw [if_pos h1, if_neg h2, if_neg (by omega), hrest]
        rfl
    · rw [if_neg (by omega)] at hb
      rw [if_neg h1, if_neg (by omega), ih _ (by omega), Nat.zero_add]

theorem activeAmount_reverse (locks : List LockedBalance) (E : ℕ) :
    activeAmount locks.reverse E = activeAmount locks E := by
  simp [activeAmount, List.sum_reverse]

/-- `balanceAtEpochOf` adds up the active amount. -/
theorem WellDated.sumLocks_eq {locks : List LockedBalance} {n E cutoff : ℕ} (h : WellDated locks n)
    (hE : cutoff + lockDuration = E) (hb : activeAmount locks E < 2 ^ 256) :
    sumLocks E cutoff locks.reverse 0 = .ok (activeAmount locks E) := by
  have hl : ∀ l ∈ locks.reverse, ∃ e, l.unlockTime = e + lockDuration := by
    intro l hl
    obtain ⟨k, -, ht⟩ := h.grid l (List.mem_reverse.1 hl)
    exact ⟨k * rewardsDuration, by rw [ht, lockDuration, Nat.add_mul, Nat.mul_comm 17]⟩
  rw [Locker.sumLocks_eq hE (List.pairwise_reverse.2 h.sorted) hl
    (by rw [activeAmount_reverse]; omega), activeAmount_reverse, Nat.zero_add]

end Aura.Locker
