import Aura.Locker.Checkpoints
import Aura.Locker.Ledger

/-!
# AuraLocker : votes

The history of delegations is read off the log of successful calls (`delegateBefore`) and
the history of weights off the lock records. Together they are a `Ballot` in which a lock
made in week `k` counts from week `k + 1` to `k + 16`. `Counted` says that checkpoints and
scheduled unlocks record it. A lock is an `acquire` of the ballot, a delegation a
`redelegate`, and the checkpoint of an expiry writes down what is already true, so
`getPastVotes` is exact in every reachable world (`getPastVotes_exact`).
-/

open Evm Function Finset

namespace Aura.Locker

open AuraMath

/-! ## The ballot -/

/-- The delegatee of `u` by its last successful `delegate` strictly before `E`. -/
def delegateBefore (log : List Event) (u : Address) (E : ℕ) : Option Address :=
  (log.filterMap fun e =>
    if e.sender = u ∧ e.time < E then e.call.delegatee else none).getLast?

theorem delegateBefore_delegate (log : List Event) (now : ℕ) (u u' D : Address) (E : ℕ) :
    delegateBefore (log ++ [⟨now, u, .delegate D⟩]) u' E =
      if u' = u ∧ now < E then some D else delegateBefore log u' E := by
  unfold delegateBefore
  rw [List.filterMap_append]
  by_cases h : u = u' ∧ now < E
  · simp [h, Call.delegatee]
  · rw [if_neg fun hc => h ⟨hc.1.symm, hc.2⟩]
    simp [h]

theorem delegateBefore_other (log : List Event) {now : ℕ} {u : Address} {c : Call}
    (hc : c.delegatee = none) (u' : Address) (E : ℕ) :
    delegateBefore (log ++ [⟨now, u, c⟩]) u' E = delegateBefore log u' E := by
  unfold delegateBefore
  rw [List.filterMap_append]
  simp [hc]

/-- The ballot of a log and lock records. -/
def ballot (log : List Event) (userLocks : Address → List LockedBalance) :
    Ballot Address Address where
  term := 16
  delegate u k := delegateBefore log u (k * rewardsDuration)
  weight u j := amountAt (userLocks u) (j * rewardsDuration)

/-- The delegatee of `u`, if it has one. -/
def currentDelegate (v : Voting) (u : Address) : Option Address :=
  if v.delegates u = 0 then none else some (v.delegates u)

/-- The votes in storage record the ballot up to week `n`. -/
structure Counted (b : Ballot Address Address) (v : Voting) (n : ℕ) : Prop where
  term : b.term = 16
  unlocks : ∀ D j, v.delegateeUnlocks D (j * rewardsDuration) = b.expiring D j
  recorded : ∀ D, Recorded b D n (v.checkpointedVotes D)
  /-- From the upcoming week on, users delegate to whom they delegate now. -/
  delegated : ∀ u k, n < k → b.delegate u k = currentDelegate v u
  /-- Nothing has been locked in later weeks. -/
  weighted : ∀ u j, n + 17 < j → b.weight u j = 0

variable {b : Ballot Address Address} {v v' : Voting} {n now : ℕ}

theorem Counted.term_le (h : Counted b v n) : b.term ≤ 17 :=
  h.term.trans_le (by decide)

/-- Future weeks are quiet. -/
theorem Counted.quiet (h : Counted b v n) (D : Address) {k : ℕ} (hk : n < k) : b.Quiet D k := by
  refine ⟨fun u => ?_, fun u _ => h.weighted u _ ?_⟩
  · rw [h.delegated u k hk, h.delegated u (k + 1) (by omega)]
  · rw [h.term]
    omega

theorem Counted.time {n' : ℕ} (h : Counted b v n) (hn : n ≤ n') : Counted b v n' :=
  ⟨h.term, h.unlocks, fun D => (h.recorded D).time hn fun _ hk => h.quiet D hk,
    fun u k hk => h.delegated u k (by omega), fun u j hj => h.weighted u j (by omega)⟩

theorem currentDelegate_eq_some {u D : Address} :
    currentDelegate v u = some D ↔ D ≠ 0 ∧ v.delegates u = D := by
  unfold currentDelegate
  split_ifs with h
  · simp only [false_iff, not_and]
    rintro hD rfl
    exact hD h
  · rw [Option.some_inj]
    exact ⟨fun he => ⟨he ▸ h, he⟩, fun he => he.2⟩

/-! ## Writing a checkpoint -/

/-- What `_checkpointDelegate` wrote for a delegatee whose checkpoints are in order. -/
theorem checkpointDelegate_eq_ok {D : Address} {addition deduction : ℕ} (hD : D ≠ 0)
    (hr : Recorded b D (week now) (v.checkpointedVotes D)) (hterm : b.term ≤ 17)
    (hu : ∀ j ≤ week now + 1, v.delegateeUnlocks D (j * rewardsDuration) = b.expiring D j)
    (h : _checkpointDelegate v now D addition deduction = .ok v') :
    ∃ base tail, v.checkpointedVotes D = base ++ tail ∧
      (∀ c ∈ base, c.epochStart < (week now + 1) * rewardsDuration) ∧
      (∀ c ∈ tail, c.epochStart = (week now + 1) * rewardsDuration) ∧
      b.votes D (week now + 1) + addition - deduction < 2 ^ 224 ∧
      v' = { v with checkpointedVotes := update v.checkpointedVotes D (base ++
        [⟨b.votes D (week now + 1) + addition - deduction,
          (week now + 1) * rewardsDuration⟩]) } := by
  obtain ⟨base, tail, hsplit, hbase, htail, heq⟩ :=
    hr.writeCheckpoint_eq hterm hu addition deduction
  unfold _checkpointDelegate at h
  rw [if_pos hD] at h
  obtain ⟨E, hE, h⟩ := bind_eq_ok.1 h
  obtain rfl := upcomingEpoch_eq_ok hE
  obtain ⟨ckpts, hck, h⟩ := bind_eq_ok.1 h
  rw [epochOf_eq, ← Nat.succ_mul] at hck
  rw [heq] at hck
  obtain ⟨c, hc, hck⟩ := bind_eq_ok.1 hck
  unfold checkpointAt at hc
  obtain ⟨x, hx, hc⟩ := bind_eq_ok.1 hc
  obtain ⟨-, rfl⟩ := uadd_eq_ok.1 hx
  obtain ⟨y, hy, hc⟩ := bind_eq_ok.1 hc
  obtain ⟨-, rfl⟩ := usub_eq_ok.1 hy
  obtain ⟨z, hz, hc⟩ := bind_eq_ok.1 hc
  obtain ⟨hlt, rfl⟩ := ucast_eq_ok.1 hz
  obtain ⟨e, he, hc⟩ := bind_eq_ok.1 hc
  obtain ⟨-, rfl⟩ := ucast_eq_ok.1 he
  cases hc
  cases hck
  cases h
  exact ⟨base, tail, hsplit, hbase, htail, hlt, rfl⟩

theorem upcomingEpoch_ne_underflow (now : ℕ) : upcomingEpoch now ≠ .error .underflow :=
  bind_ne_underflow (uadd_ne_underflow _ _ _) fun _ _ => ok_ne_underflow _

/-- No subtraction underflows when what is deducted is there. -/
theorem checkpointDelegate_ne_underflow {D : Address} {addition deduction : ℕ}
    (hr : Recorded b D (week now) (v.checkpointedVotes D)) (hterm : b.term ≤ 17)
    (hu : ∀ j ≤ week now + 1, v.delegateeUnlocks D (j * rewardsDuration) = b.expiring D j)
    (hle : deduction ≤ b.votes D (week now + 1) + addition) :
    _checkpointDelegate v now D addition deduction ≠ .error .underflow := by
  obtain ⟨base, tail, -, -, -, heq⟩ := hr.writeCheckpoint_eq hterm hu addition deduction
  unfold _checkpointDelegate
  split_ifs
  · refine bind_ne_underflow (upcomingEpoch_ne_underflow now) fun E hE => ?_
    obtain rfl := upcomingEpoch_eq_ok hE
    rw [epochOf_eq, ← Nat.succ_mul, heq]
    refine bind_ne_underflow ?_ fun _ _ => ok_ne_underflow _
    refine bind_ne_underflow ?_ fun _ _ => ok_ne_underflow _
    unfold checkpointAt
    refine bind_ne_underflow (uadd_ne_underflow _ _ _) fun x hx => ?_
    obtain ⟨-, rfl⟩ := uadd_eq_ok.1 hx
    rw [sub, usub_of hle, ok_bind]
    refine bind_ne_underflow (ucast_ne_underflow _ _ _) fun _ _ => ?_
    exact bind_ne_underflow (ucast_ne_underflow _ _ _) fun _ _ => ok_ne_underflow _
  · exact ok_ne_underflow _

/-- A checkpoint without additions and deductions writes down what is true. -/
theorem Counted.roll {a : Address} (h : Counted b v (week now))
    (hx : _checkpointDelegate v now (v.delegates a) 0 0 = .ok v') : Counted b v' (week now) := by
  by_cases hD : v.delegates a = 0
  · rw [hD] at hx
    cases hx
    exact h
  · obtain ⟨base, tail, hsplit, hbase, htail, hlt, rfl⟩ :=
      checkpointDelegate_eq_ok hD (h.recorded _) h.term_le (fun j _ => h.unlocks _ j) hx
    rw [Nat.add_zero, Nat.sub_zero] at hlt
    refine ⟨h.term, h.unlocks, fun D => ?_, h.delegated, h.weighted⟩
    dsimp only
    by_cases he : D = v.delegates a
    · subst he
      rw [update_self, Nat.add_zero, Nat.sub_zero]
      exact (h.recorded _).write hsplit hbase htail (fun _ _ => rfl) (fun _ _ hq => hq) hlt
    · rw [update_of_ne he]
      exact h.recorded D

theorem Counted.roll_ne_underflow (h : Counted b v (week now)) (a : Address) :
    _checkpointDelegate v now (v.delegates a) 0 0 ≠ .error .underflow :=
  checkpointDelegate_ne_underflow (h.recorded _) h.term_le (fun j _ => h.unlocks _ j)
    (Nat.zero_le _)

/-! ## Locking -/

theorem setUnlocks_apply (f : Address → ℕ → ℕ) (D X : Address) (t t' n : ℕ) :
    setUnlocks f D t n X t' = if X = D ∧ t' = t then n else f X t' := by
  unfold setUnlocks
  by_cases hX : X = D
  · subst hX
    by_cases ht : t' = t <;> simp [ht]
  · simp [hX]

/-- An unlock scheduled on top of the others. -/
theorem setUnlocks_add (f : Address → ℕ → ℕ) (D X : Address) (t t' n : ℕ) :
    setUnlocks f D t (f D t + n) X t' = f X t' + if X = D ∧ t' = t then n else 0 := by
  rw [setUnlocks_apply]
  by_cases h : X = D ∧ t' = t
  · rw [if_pos h, if_pos h, h.1, h.2]
  · rw [if_neg h, if_neg h, Nat.add_zero]

theorem Counted.term_acquire (h : Counted b v n) {a : Address} {j x : ℕ} :
    (b.acquire a j x).term = 16 := by
  rw [b.term_acquire, h.term]

theorem Counted.delegated_acquire (h : Counted b v n) {a : Address} {j x : ℕ} (u : Address) (k : ℕ)
    (hk : n < k) : (b.acquire a j x).delegate u k = currentDelegate v u := by
  rw [b.delegate_acquire, h.delegated u k hk]

/-- Acquired weight leaves the votes before the upcoming week alone, and those of other
delegatees up to it. -/
theorem Counted.recorded_acquire (h : Counted b v n) {a : Address} {m : ℕ} (D : Address)
    {ckpts : List DelegateeCheckpoint} (hr : Recorded b D n ckpts)
    (hne : currentDelegate v a ≠ some D) : Recorded (b.acquire a (n + 17) m) D n ckpts := by
  have hother : b.delegate a (n + 1) ≠ some D := by
    rw [h.delegated a (n + 1) (Nat.lt_succ_self n)]
    exact hne
  refine hr.keep (fun k hk => ?_) fun k hk hq => hq.congr (by simp) (by simp) ?_
  · rw [b.votes_acquire, if_neg, Nat.add_zero]
    rintro ⟨hd, -, hj⟩
    rw [h.term] at hj
    obtain rfl : k = n + 1 := by omega
    exact hother hd
  · intro u hu
    rw [b.term_acquire, b.weight_acquire, if_neg, Nat.add_zero]
    rintro ⟨rfl, hj⟩
    rw [h.term] at hj
    obtain rfl : k = n := by omega
    exact hother hu

theorem Counted.votes_acquire_of_le (h : Counted b v n) {a : Address} {m : ℕ} (D : Address)
    {k : ℕ} (hk : k ≤ n) : (b.acquire a (n + 17) m).votes D k = b.votes D k := by
  rw [b.votes_acquire, if_neg, Nat.add_zero]
  rintro ⟨-, -, hj⟩
  rw [h.term] at hj
  omega

theorem Counted.quiet_acquire_of_lt (h : Counted b v n) {a : Address} {m : ℕ} (D : Address)
    {k : ℕ} (hk : k < n) (hq : b.Quiet D k) : (b.acquire a (n + 17) m).Quiet D k := by
  refine hq.congr (by simp) (by simp) fun u _ => ?_
  rw [b.term_acquire, b.weight_acquire, if_neg, Nat.add_zero]
  rintro ⟨-, hj⟩
  rw [h.term] at hj
  omega

/-- The unlock that is scheduled for the delegatee is the weight that expires for it. -/
theorem Counted.setUnlocks_acquire (h : Counted b v n) {a : Address} {D : Address} (m : ℕ)
    (hD : currentDelegate v a = some D) (X : Address) (j : ℕ) :
    setUnlocks v.delegateeUnlocks D ((n + 17) * rewardsDuration)
        (v.delegateeUnlocks D ((n + 17) * rewardsDuration) + m) X (j * rewardsDuration) =
      (b.acquire a (n + 17) m).expiring X j := by
  rw [setUnlocks_add, b.expiring_acquire, ← h.unlocks X j]
  simp only [Nat.mul_right_cancel_iff rewardsDuration_pos]
  by_cases hj : j = n + 17
  · subst hj
    rw [h.delegated a (n + 17 - 1) (by omega), hD]
    simp [eq_comm]
  · simp [hj]

/-- A lock made in week `n` acquires weight that expires in week `n + 17`. -/
theorem Counted.lock {a : Address} {m : ℕ} (h : Counted b v (week now))
    (hx : lockVotes v now a m (epochOf now + lockDuration) = .ok v') :
    Counted (b.acquire a (week now + 17) m) v' (week now) := by
  set n := week now with hn
  have hcur : ∀ k, n < k → b.delegate a k = currentDelegate v a := h.delegated a
  unfold lockVotes at hx
  dsimp only at hx
  split_ifs at hx with hD
  · -- the delegatee gains the new weight
    set D := v.delegates a with hDdef
    have hsome : currentDelegate v a = some D := currentDelegate_eq_some.2 ⟨hD, rfl⟩
    obtain ⟨x, hx₁, hx⟩ := bind_eq_ok.1 hx
    obtain ⟨-, rfl⟩ := uadd_eq_ok.1 hx₁
    rw [epochOf_add_lock] at hx
    set v₁ : Voting :=
      { v with
        delegateeUnlocks := setUnlocks v.delegateeUnlocks D ((n + 17) * rewardsDuration)
          (v.delegateeUnlocks D ((n + 17) * rewardsDuration) + m) } with hv₁
    have hunlocks : ∀ X j, v₁.delegateeUnlocks X (j * rewardsDuration) =
        (b.acquire a (n + 17) m).expiring X j := h.setUnlocks_acquire m hsome
    have hbefore : ∀ j ≤ week now + 1, v₁.delegateeUnlocks D (j * rewardsDuration) =
        b.expiring D j := by
      intro j hj
      rw [hunlocks, b.expiring_acquire, if_neg, Nat.add_zero]
      rintro ⟨-, hj'⟩
      omega
    have hr : Recorded b D (week now) (v₁.checkpointedVotes D) := h.recorded D
    obtain ⟨base, tail, hsplit, hbase, htail, hlt, rfl⟩ :=
      checkpointDelegate_eq_ok hD hr h.term_le hbefore hx
    have hvotes : (b.acquire a (n + 17) m).votes D (n + 1) = b.votes D (n + 1) + m := by
      rw [b.votes_acquire, if_pos]
      rw [hcur (n + 1) (by omega), hsome, h.term]
      exact ⟨rfl, by omega, by omega⟩
    rw [Nat.sub_zero, ← hn, ← hvotes] at hlt
    refine ⟨h.term_acquire, hunlocks, fun X => ?_, h.delegated_acquire, fun u j hj => ?_⟩
    · dsimp only
      by_cases hX : X = D
      · subst hX
        rw [update_self, Nat.sub_zero, ← hn, ← hvotes]
        exact (h.recorded D).write hsplit hbase htail (fun k hk => h.votes_acquire_of_le D hk)
          (fun k hk hq => h.quiet_acquire_of_lt D hk hq) hlt
      · rw [update_of_ne hX]
        refine h.recorded_acquire X (h.recorded X) ?_
        rw [hsome]
        exact fun he => hX (Option.some_inj.1 he).symm
    · rw [b.weight_acquire, h.weighted u j hj, if_neg fun he => by omega]
  · -- nobody gains
    cases hx
    have hnone : currentDelegate v a = none := if_pos (not_not.1 hD)
    refine ⟨h.term_acquire, fun X j => ?_,
      fun X => h.recorded_acquire X (h.recorded X) (by simp [hnone]), h.delegated_acquire,
      fun u j hj => ?_⟩
    · rw [h.unlocks, b.expiring_acquire, if_neg, Nat.add_zero]
      rintro ⟨hd, rfl⟩
      rw [hcur _ (by omega), hnone] at hd
      cases hd
    · rw [b.weight_acquire, h.weighted u j hj, if_neg fun he => by omega]

theorem Counted.lock_ne_underflow (h : Counted b v (week now)) (a : Address) (m : ℕ) :
    lockVotes v now a m (epochOf now + lockDuration) ≠ .error .underflow := by
  unfold lockVotes
  dsimp only
  split_ifs with hD
  · refine bind_ne_underflow (uadd_ne_underflow _ _ _) fun x _ => ?_
    refine checkpointDelegate_ne_underflow (h.recorded (v.delegates a)) h.term_le
      (fun j hj => ?_) (Nat.zero_le _)
    dsimp only
    rw [setUnlocks_apply, if_neg, h.unlocks]
    rintro ⟨-, he⟩
    rw [epochOf_add_lock] at he
    have := Nat.eq_of_mul_eq_mul_right rewardsDuration_pos he
    omega
  · exact ok_ne_underflow _

/-! ## Delegating -/

/-- What `deductUnlock` took from the old delegatee. -/
theorem deductUnlock_eq_ok {f f' : Address → ℕ → ℕ} {O : Address} {t a : ℕ}
    (h : deductUnlock f O t a = .ok f') (X : Address) (t' : ℕ) :
    f' X t' + (if X = O ∧ O ≠ 0 ∧ t' = t then a else 0) = f X t' := by
  unfold deductUnlock at h
  split_ifs at h with hO
  · obtain ⟨n, hn, h⟩ := bind_eq_ok.1 h
    obtain ⟨hle, rfl⟩ := usub_eq_ok.1 hn
    cases h
    rw [setUnlocks_apply]
    by_cases hX : X = O ∧ t' = t
    · obtain ⟨rfl, rfl⟩ := hX
      simp [hO, hle]
    · rw [if_neg hX, if_neg fun hc => hX ⟨hc.1, hc.2.2⟩, Nat.add_zero]
  · cases h
    rw [if_neg fun hc => hO hc.2.1, Nat.add_zero]

/-- The future unlocks of the records move from the old to the new delegatee. The records
are in descending order, as the loop visits them. -/
theorem moveUnlocks_eq_ok {O D : Address} {T : ℕ} :
    ∀ {rev : List LockedBalance} {f : Address → ℕ → ℕ} {acc : ℕ} {r : (Address → ℕ → ℕ) × ℕ},
      (rev.Pairwise fun l l' => l'.unlockTime < l.unlockTime) →
      (∀ l ∈ rev, l.unlockTime < T + lockDuration) →
      moveUnlocks O D T rev f acc = .ok r →
      r.2 = acc + activeAmount rev T ∧
        ∀ X t, r.1 X t + (if X = O ∧ O ≠ 0 ∧ T < t then amountAt rev t else 0) =
          f X t + if X = D ∧ T < t then amountAt rev t else 0
  | [], f, acc, r, _, _, h => by
    cases h
    simp
  | l :: rev, f, acc, r, hs, hlt, h => by
    obtain ⟨hl, hs⟩ := List.pairwise_cons.1 hs
    unfold moveUnlocks at h
    split_ifs at h with hT
    · obtain ⟨acc', hacc, h⟩ := bind_eq_ok.1 h
      obtain ⟨-, rfl⟩ := uadd_eq_ok.1 hacc
      obtain ⟨f₁, hf₁, h⟩ := bind_eq_ok.1 h
      obtain ⟨m, hm, h⟩ := bind_eq_ok.1 h
      obtain ⟨-, rfl⟩ := uadd_eq_ok.1 hm
      obtain ⟨hsum, hf⟩ := moveUnlocks_eq_ok hs (fun l' hl' => hlt l' (by simp [hl'])) h
      refine ⟨?_, fun X t => ?_⟩
      · have hl := hlt l (by simp)
        simp only [activeAmount_cons, hl, hT, and_self, if_true, hsum, Nat.add_assoc]
      · have h1 := hf X t
        have h2 := deductUnlock_eq_ok hf₁ X t
        rw [setUnlocks_add] at h1
        simp only [amountAt_cons]
        by_cases ht : t = l.unlockTime
        · subst ht
          simp only [hT, and_true, if_true] at h1 h2 ⊢
          split_ifs at h1 h2 ⊢ <;> omega
        · have ht' : ¬l.unlockTime = t := fun he => ht he.symm
          simp only [ht, ht', and_false, if_false, Nat.add_zero, Nat.zero_add] at h1 h2 ⊢
          rw [h1, h2]
    · -- the loop stops : nothing that is left unlocks after `T`
      cases h
      have hpast : ∀ l' ∈ l :: rev, l'.unlockTime ≤ T := by
        intro l' hl'
        rcases List.mem_cons.1 hl' with rfl | hl'
        · exact not_lt.1 hT
        · exact (hl l' hl').le.trans (not_lt.1 hT)
      refine ⟨?_, fun X t => ?_⟩
      · rw [activeAmount_eq_zero hpast, Nat.add_zero]
      · by_cases ht : T < t
        · rw [amountAt_eq_zero fun l' hl' => ((hpast l' hl').trans_lt ht).ne]
          simp
        · simp [ht]

/-- The loop does not underflow when the old delegatee has the unlocks it loses. -/
theorem moveUnlocks_ne_underflow {O D : Address} {T : ℕ} (hne : D ≠ O) :
    ∀ {rev : List LockedBalance} {f : Address → ℕ → ℕ} {acc : ℕ},
      (rev.Pairwise fun l l' => l'.unlockTime < l.unlockTime) →
      (O ≠ 0 → ∀ l ∈ rev, T < l.unlockTime → l.amount ≤ f O l.unlockTime) →
      moveUnlocks O D T rev f acc ≠ .error .underflow
  | [], f, acc, _, _ => by simp [moveUnlocks]
  | l :: rev, f, acc, hs, hle => by
    obtain ⟨hl, hs⟩ := List.pairwise_cons.1 hs
    unfold moveUnlocks
    split_ifs with hT
    · refine bind_ne_underflow (uadd_ne_underflow _ _ _) fun acc' _ => ?_
      refine bind_ne_underflow ?_ fun f₁ hf₁ => ?_
      · unfold deductUnlock
        split_ifs with hO
        · rw [sub, usub_of (hle hO l (by simp) hT)]
          exact ok_ne_underflow _
        · exact ok_ne_underflow _
      refine bind_ne_underflow (uadd_ne_underflow _ _ _) fun m _ => ?_
      refine moveUnlocks_ne_underflow hne hs fun hO l' hl' hT' => ?_
      -- another record : its unlocks have not been touched
      have hlt := hl l' hl'
      have hf := deductUnlock_eq_ok hf₁ O l'.unlockTime
      rw [if_neg fun hc => hlt.ne hc.2.2, Nat.add_zero] at hf
      rw [setUnlocks_apply, if_neg fun hc => hne hc.1.symm, hf]
      exact hle hO l' (by simp [hl']) hT'
    · simp

section Redelegate

/-! A delegation by `u` from its current delegatee, if any, to `D`. -/

variable {u D : Address} {locks : List LockedBalance}

/-- Nothing changes for anybody before the upcoming week. -/
theorem votes_redelegate_of_le (X : Address) {k : ℕ} (hk : k ≤ n) :
    (b.redelegate u (n + 1) D).votes X k = b.votes X k := by
  have := b.votes_redelegate u (n + 1) D X k
  rw [if_neg (by omega), if_neg (by omega)] at this
  exact Nat.add_right_cancel this

theorem quiet_redelegate_of_lt (X : Address) {k : ℕ} (hk : k < n) (h : b.Quiet X k) :
    (b.redelegate u (n + 1) D).Quiet X k := by
  refine h.congr (fun u' => ?_) (fun u' => ?_) (by simp)
  · rw [b.delegate_redelegate, if_neg (by omega)]
  · rw [b.delegate_redelegate, if_neg (by omega)]

/-- Nothing changes for a delegatee that `u` neither leaves nor joins. -/
theorem Counted.recorded_redelegate (h : Counted b v n) {X : Address} (hD : X ≠ D)
    (hO : currentDelegate v u ≠ some X) :
    Recorded (b.redelegate u (n + 1) D) X n (v.checkpointedVotes X) := by
  have hother : ∀ k, n + 1 ≤ k → b.delegate u k ≠ some X := fun k hk => by
    rw [h.delegated u k hk]
    exact hO
  have hsame : ∀ u' k, (b.redelegate u (n + 1) D).delegate u' k = some X ↔
      b.delegate u' k = some X := by
    intro u' k
    rw [b.delegate_redelegate]
    split_ifs with hc
    · obtain ⟨rfl, hk⟩ := hc
      simp [hother k hk, hD.symm]
    · exact Iff.rfl
  refine (h.recorded X).keep (fun k _ => ?_) fun k _ hq =>
    hq.congr (fun u' => hsame u' k) (fun u' => hsame u' (k + 1)) (by simp)
  have := b.votes_redelegate u (n + 1) D X k
  rw [if_neg fun hc => hother k hc.1 hc.2, if_neg fun hc => hD hc.2.symm] at this
  exact Nat.add_right_cancel this

/-- What `moveUnlocks` moves in week `n`, in terms of the ballot. -/
theorem Counted.moved (h : Counted b v (week now)) (hlocks : WellDated locks (week now))
    (hw : ∀ j, b.weight u j = amountAt locks (j * rewardsDuration))
    {moved : (Address → ℕ → ℕ) × ℕ}
    (hm : moveUnlocks (v.delegates u) D (epochOf now + rewardsDuration) locks.reverse
      v.delegateeUnlocks 0 = .ok moved) :
    moved.2 = b.active u (week now + 1) ∧
      (∀ X j, moved.1 X (j * rewardsDuration) =
        (b.redelegate u (week now + 1) D).expiring X j) ∧
      ∀ X, ∀ j ≤ week now + 1, moved.1 X (j * rewardsDuration) = b.expiring X j := by
  set n := week now with hn
  have hT : epochOf now + rewardsDuration = (n + 1) * rewardsDuration := by
    rw [epochOf_eq, Nat.succ_mul]
  have hlt : ∀ l ∈ locks.reverse, l.unlockTime < epochOf now + rewardsDuration + lockDuration :=
    fun l hl => hlocks.unlockTime_lt l (List.mem_reverse.1 hl)
  obtain ⟨hsum, hf⟩ := moveUnlocks_eq_ok (List.pairwise_reverse.2 hlocks.sorted) hlt hm
  rw [hT] at hsum hf
  have hamount : ∀ j, amountAt locks.reverse (j * rewardsDuration) = b.weight u j := fun j => by
    rw [hw, amountAt, List.map_reverse, List.sum_reverse, amountAt]
  have hexp : ∀ X j, moved.1 X (j * rewardsDuration) = (b.redelegate u (n + 1) D).expiring X j := by
    intro X j
    have h1 := hf X (j * rewardsDuration)
    have h2 := b.expiring_redelegate u (n + 1) D X j
    simp only [hamount, h.unlocks, Nat.mul_lt_mul_right rewardsDuration_pos] at h1
    by_cases hj : n + 1 < j
    · have hj' : n + 1 ≤ j - 1 := by omega
      simp only [h.delegated u (j - 1) (by omega), currentDelegate_eq_some, hj, hj', and_true,
        true_and] at h1 h2
      have hO : (X = v.delegates u ∧ v.delegates u ≠ 0) ↔ (X ≠ 0 ∧ v.delegates u = X) :=
        ⟨fun hc => ⟨hc.1 ▸ hc.2, hc.1.symm⟩, fun hc => ⟨hc.2.symm, hc.2 ▸ hc.1⟩⟩
      have hX : X = D ↔ D = X := eq_comm
      simp only [hO, hX] at h1
      omega
    · rw [if_neg fun hc => hj hc.2.2, if_neg fun hc => hj hc.2] at h1
      rw [if_neg (by omega), if_neg (by omega)] at h2
      omega
  refine ⟨?_, hexp, fun X j hj => ?_⟩
  · rw [hsum, Nat.zero_add, activeAmount_reverse, hlocks.activeAmount_eq, Ballot.active, h.term]
    exact sum_congr rfl fun i _ => (hw _).symm
  · rw [hexp]
    have := b.expiring_redelegate u (n + 1) D X j
    rw [if_neg (by omega), if_neg (by omega)] at this
    exact Nat.add_right_cancel this

/-- No subtraction underflows while the unlocks move. -/
theorem Counted.moved_ne_underflow (h : Counted b v (week now)) (hne : D ≠ v.delegates u)
    (hlocks : WellDated locks (week now))
    (hw : ∀ j, b.weight u j = amountAt locks (j * rewardsDuration)) :
    moveUnlocks (v.delegates u) D (epochOf now + rewardsDuration) locks.reverse
      v.delegateeUnlocks 0 ≠ .error .underflow := by
  refine moveUnlocks_ne_underflow hne (List.pairwise_reverse.2 hlocks.sorted)
    fun hz l hl hlt => ?_
  have hl := List.mem_reverse.1 hl
  obtain ⟨k, -, hk⟩ := hlocks.grid l hl
  rw [epochOf_eq, ← Nat.succ_mul, hk] at hlt
  have hk' := Nat.lt_of_mul_lt_mul_right hlt
  have hcur : b.delegate u (k + 17 - 1) = some (v.delegates u) := by
    rw [h.delegated u _ (by omega)]
    exact currentDelegate_eq_some.2 ⟨hz, rfl⟩
  have hle := b.weight_le_expiring hcur
  rw [← h.unlocks, hw] at hle
  rw [← hlocks.amountAt_of_mem hl, hk]
  exact hle

/-- `u` leaves its delegatee : the checkpoint deducts what moves. -/
theorem Counted.leave (h : Counted b v (week now)) (hne : D ≠ v.delegates u)
    {unlocks : Address → ℕ → ℕ} (hu : ∀ X, ∀ j ≤ week now + 1,
      unlocks X (j * rewardsDuration) = b.expiring X j) {v₁ : Voting}
    (hx : _checkpointDelegate { v with
        delegates := update v.delegates u D
        delegateeUnlocks := unlocks } now (v.delegates u) 0 (b.active u (week now + 1)) = .ok v₁) :
    ∃ ckpts, v₁ = { v with
        delegates := update v.delegates u D
        delegateeUnlocks := unlocks
        checkpointedVotes := ckpts } ∧
      (∀ X, X ≠ v.delegates u → ckpts X = v.checkpointedVotes X) ∧
      (v.delegates u ≠ 0 → Recorded (b.redelegate u (week now + 1) D) (v.delegates u) (week now)
        (ckpts (v.delegates u))) := by
  set O := v.delegates u with hO
  by_cases hz : O = 0
  · rw [hz] at hx
    cases hx
    exact ⟨v.checkpointedVotes, rfl, fun _ _ => rfl, fun hne => absurd hz hne⟩
  · have hr : Recorded b O (week now) (Voting.checkpointedVotes { v with
        delegates := update v.delegates u D
        delegateeUnlocks := unlocks } O) := h.recorded O
    obtain ⟨base, tail, hsplit, hbase, htail, hlt, rfl⟩ :=
      checkpointDelegate_eq_ok hz hr h.term_le (hu O) hx
    refine ⟨_, rfl, fun X hX => update_of_ne hX _ _, fun _ => ?_⟩
    have hcur : b.delegate u (week now + 1) = some O := by
      rw [h.delegated u _ (Nat.lt_succ_self _)]
      exact currentDelegate_eq_some.2 ⟨hz, rfl⟩
    have hvotes : (b.redelegate u (week now + 1) D).votes O (week now + 1) =
        b.votes O (week now + 1) + 0 - b.active u (week now + 1) := by
      have := b.votes_redelegate u (week now + 1) D O (week now + 1)
      rw [if_pos ⟨le_rfl, hcur⟩, if_neg fun hc => hne hc.2] at this
      omega
    rw [update_self, ← hvotes]
    rw [← hvotes] at hlt
    exact (h.recorded O).write hsplit hbase htail (fun k hk => votes_redelegate_of_le O hk)
      (fun k hk hq => quiet_redelegate_of_lt O hk hq) hlt

/-- The delegatee that `u` leaves has the votes of `u`. -/
theorem Counted.leave_ne_underflow (h : Counted b v (week now))
    {unlocks : Address → ℕ → ℕ} (hu : ∀ X, ∀ j ≤ week now + 1,
      unlocks X (j * rewardsDuration) = b.expiring X j) :
    _checkpointDelegate { v with
        delegates := update v.delegates u D
        delegateeUnlocks := unlocks } now (v.delegates u) 0 (b.active u (week now + 1)) ≠
      .error .underflow := by
  by_cases hz : v.delegates u = 0
  · rw [hz]
    exact fun hx => nomatch hx
  · have hcur : b.delegate u (week now + 1) = some (v.delegates u) := by
      rw [h.delegated u _ (Nat.lt_succ_self _)]
      exact currentDelegate_eq_some.2 ⟨hz, rfl⟩
    exact checkpointDelegate_ne_underflow (h.recorded _) h.term_le (hu _)
      ((b.active_le_votes hcur).trans (Nat.le_add_right _ _))

/-- `u` joins a delegatee : the checkpoint adds what moves. -/
theorem Counted.join (h : Counted b v (week now)) (v₁ : Voting) (hD : D ≠ 0)
    (hne : D ≠ v.delegates u) (hckpts : v₁.checkpointedVotes D = v.checkpointedVotes D)
    (hu : ∀ j ≤ week now + 1, v₁.delegateeUnlocks D (j * rewardsDuration) = b.expiring D j)
    (hx : _checkpointDelegate v₁ now D (b.active u (week now + 1)) 0 = .ok v') :
    ∃ ckpts, v' = { v₁ with checkpointedVotes := update v₁.checkpointedVotes D ckpts } ∧
      Recorded (b.redelegate u (week now + 1) D) D (week now) ckpts := by
  have hr : Recorded b D (week now) (v₁.checkpointedVotes D) := by
    rw [hckpts]
    exact h.recorded D
  obtain ⟨base, tail, hsplit, hbase, htail, hlt, rfl⟩ :=
    checkpointDelegate_eq_ok hD hr h.term_le hu hx
  have hcur : b.delegate u (week now + 1) ≠ some D := by
    rw [h.delegated u _ (Nat.lt_succ_self _), Ne, currentDelegate_eq_some]
    exact fun hc => hne hc.2.symm
  have hvotes : (b.redelegate u (week now + 1) D).votes D (week now + 1) =
      b.votes D (week now + 1) + b.active u (week now + 1) := by
    have := b.votes_redelegate u (week now + 1) D D (week now + 1)
    rw [if_neg fun hc => hcur hc.2, if_pos ⟨le_rfl, rfl⟩] at this
    exact (Nat.add_zero _).symm.trans this
  refine ⟨_, rfl, ?_⟩
  rw [Nat.sub_zero, ← hvotes] at hlt
  rw [Nat.sub_zero, ← hvotes]
  exact hr.write hsplit hbase htail (fun k hk => votes_redelegate_of_le D hk)
    (fun k hk hq => quiet_redelegate_of_lt D hk hq) hlt

/-- From the upcoming week on, `u` delegates to `D`, and the others as before. -/
theorem Counted.delegate_redelegate (h : Counted b v (week now)) (hD : D ≠ 0) {v₁ : Voting}
    (hv : v₁.delegates = update v.delegates u D) {u' : Address} {k : ℕ} (hk : week now < k) :
    (b.redelegate u (week now + 1) D).delegate u' k = currentDelegate v₁ u' := by
  rw [b.delegate_redelegate]
  unfold currentDelegate
  rw [hv]
  by_cases hu : u' = u
  · subst hu
    rw [if_pos ⟨rfl, hk⟩]
    simp [hD]
  · rw [if_neg fun hc => hu hc.1, h.delegated u' k hk]
    simp [hu, currentDelegate]

/-- A delegation in week `n` is effective from week `n + 1` on. -/
theorem Counted.redelegate (h : Counted b v (week now)) (hD : D ≠ 0) (hne : D ≠ v.delegates u)
    (hlocks : WellDated locks (week now))
    (hw : ∀ j, b.weight u j = amountAt locks (j * rewardsDuration))
    {moved : (Address → ℕ → ℕ) × ℕ} {v₁ : Voting}
    (hm : moveUnlocks (v.delegates u) D (epochOf now + rewardsDuration) locks.reverse
      v.delegateeUnlocks 0 = .ok moved)
    (h₁ : _checkpointDelegate { v with
        delegates := update v.delegates u D
        delegateeUnlocks := moved.1 } now (v.delegates u) 0 moved.2 = .ok v₁)
    (h₂ : _checkpointDelegate v₁ now D moved.2 0 = .ok v') :
    Counted (b.redelegate u (week now + 1) D) v' (week now) := by
  obtain ⟨hsum, hexp, hbefore⟩ := h.moved hlocks hw hm
  rw [hsum] at h₁ h₂
  obtain ⟨ckpts, hv₁, hother, hleft⟩ := h.leave hne hbefore h₁
  obtain ⟨joined, rfl, hjoined⟩ := h.join v₁ hD hne (by rw [hv₁]; exact hother D hne)
    (by rw [hv₁]; exact hbefore D) h₂
  subst hv₁
  refine ⟨by rw [b.term_redelegate, h.term], hexp, fun X => ?_,
    fun _ _ hk => h.delegate_redelegate hD rfl hk, by rw [b.weight_redelegate]; exact h.weighted⟩
  dsimp only
  by_cases hX : X = D
  · subst hX
    rw [update_self]
    exact hjoined
  rw [update_of_ne hX]
  by_cases hXO : X = v.delegates u ∧ v.delegates u ≠ 0
  · obtain ⟨rfl, hz⟩ := hXO
    exact hleft hz
  · have hck : ckpts X = v.checkpointedVotes X := by
      by_cases hXO' : X = v.delegates u
      · -- the zero account has no checkpoints to lose
        have hz : v.delegates u = 0 := by
          by_contra hz
          exact hXO ⟨hXO', hz⟩
        rw [hz] at h₁
        exact congrArg (fun v => v.checkpointedVotes X) (Except.ok.inj h₁).symm
      · exact hother X hXO'
    rw [hck]
    refine h.recorded_redelegate hX ?_
    rw [Ne, currentDelegate_eq_some]
    exact fun hc => hXO ⟨hc.2.symm, hc.2 ▸ hc.1⟩

end Redelegate

/-! ## Runs -/

/-- The ballot after a lock. -/
theorem ballot_lock {first m : ℕ} {log : List Event} {s s' : Storage} {a : Address}
    (hd : Dated first n now s) (hfit : Fits now) (hl : LockDone s s' now a m) :
    ballot log s'.ledger.userLocks =
      (ballot log s.ledger.userLocks).acquire a (week now + 17) m := by
  refine Ballot.ext ?_ ?_ ?_
  · rw [Ballot.term_acquire]
    rfl
  · rw [Ballot.delegate_acquire]
    rfl
  funext u j
  rw [Ballot.weight_acquire]
  show amountAt _ _ = amountAt _ _ + _
  rw [hd.amountAt_lock hfit hl, epochOf_add_lock]
  simp only [Nat.mul_right_cancel_iff rewardsDuration_pos]

/-- The ballot after a delegation. -/
theorem ballot_delegate (log : List Event) (userLocks : Address → List LockedBalance)
    (now : ℕ) (u D : Address) : ballot (log ++ [⟨now, u, .delegate D⟩]) userLocks =
      (ballot log userLocks).redelegate u (week now + 1) D := by
  refine Ballot.ext ?_ ?_ ?_
  · rw [Ballot.term_redelegate]
    rfl
  swap
  · rw [Ballot.weight_redelegate]
    rfl
  funext u' k
  rw [Ballot.delegate_redelegate]
  show delegateBefore _ _ _ = _
  have hk : now < k * rewardsDuration ↔ week now + 1 ≤ k :=
    (Nat.div_lt_iff_lt_mul rewardsDuration_pos).symm
  simp only [delegateBefore_delegate, hk]
  rfl

theorem ballot_log (log : List Event) (userLocks : Address → List LockedBalance) (now : ℕ)
    (u : Address) {c : Call} (hc : c.delegatee = none) :
    ballot (log ++ [⟨now, u, c⟩]) userLocks = ballot log userLocks := by
  unfold ballot
  simp only [delegateBefore_other log hc]

/-- The ballot of a deployment is empty. -/
theorem Deploys.counted {s : Storage} (h : Deploys now s) :
    Counted (ballot [] s.ledger.userLocks) s.voting (week now) := by
  obtain ⟨-, self, owner, st, cc, cs, -, rfl⟩ := h
  have hnone : ∀ u k, (ballot [] (deploy now self owner st cc cs).ledger.userLocks).delegate u k =
      none := fun _ _ => rfl
  have hzero : ∀ (D : Address) (k : ℕ) (f : Address → ℕ),
      ∑ u, (if (ballot [] (deploy now self owner st cc cs).ledger.userLocks).delegate u k = some D
        then f u else 0) = 0 :=
    fun D k f => sum_eq_zero fun u _ => by rw [hnone, if_neg (by simp)]
  refine ⟨rfl, fun D j => ?_, fun D => ⟨List.Pairwise.nil, by simp [deploy], by simp [deploy],
    fun k _ _ => ⟨by simp [hnone], by simp [hnone]⟩, ?_⟩, fun u k _ => ?_, fun _ _ _ => rfl⟩
  · unfold Ballot.expiring
    rw [hzero]
    rfl
  · unfold Ballot.votes
    rw [hzero]
  · rw [hnone]
    exact (if_pos rfl).symm

/-- The ledger is in order, and the votes are counted as long as unlock times fit. -/
structure VotesInv (first : ℕ) (log : List Event) (now : ℕ) (s : Storage) : Prop where
  ledger : LedgerInv first now s
  counted : Fits now → Counted (ballot log s.ledger.userLocks) s.voting (week now)

theorem VotesInv.change {first : ℕ} {log : List Event} {s s' : Storage}
    (h : VotesInv first log now s) (hch : Change now s s') : VotesInv first log now s' := by
  refine ⟨h.ledger.change hch, fun hfit => ?_⟩
  have hc := h.counted hfit
  obtain ⟨n, hd⟩ := h.ledger.dated hfit
  cases hch with
  | other hl hv _ _ _ => rwa [hl, hv]
  | checkpoint hl hv _ =>
    obtain ⟨-, hlocks, -⟩ := checkpointEpoch_keeps hl
    rwa [hlocks, hv]
  | lock hl =>
    rw [ballot_lock hd hfit hl]
    exact hc.lock hl.voting
  | expire hx =>
    rw [hx.ledger]
    exact hc.roll hx.voting
  | @relock a x s₁ hx hl =>
    have hc₁ : Counted (ballot log s₁.ledger.userLocks) s₁.voting (week now) := by
      rw [hx.ledger]
      exact hc.roll hx.voting
    rw [ballot_lock (hd.expire h.ledger.sums hx) hfit hl]
    exact hc₁.lock hl.voting
  | emergencyWithdraw _ _ hs =>
    subst hs
    exact hc

theorem VotesInv.delegate {first : ℕ} {log : List Event} {s s' : Storage} {u D : Address}
    (h : VotesInv first log now s) (hx : Locker.delegate s now u D = .ok s') :
    VotesInv first (log ++ [⟨now, u, .delegate D⟩]) now s' := by
  refine ⟨h.ledger.delegate hx, fun hfit => ?_⟩
  obtain ⟨n, hd⟩ := h.ledger.dated hfit
  obtain ⟨-, hD, hne, moved, v₁, hm, h₁, h₂, hs⟩ := delegate_eq_ok hx
  have hlocks : s'.ledger = s.ledger := by rw [hs]
  rw [hlocks, ballot_delegate]
  exact (h.counted hfit).redelegate hD hne ((hd.dated u).mono hd.current) (fun _ => rfl) hm h₁ h₂

theorem inductive_votesInv (first : ℕ) : Inductive (VotesInv first) where
  time h hn := ⟨h.ledger.time hn, fun hfit => (h.counted (hfit.mono hn)).time (week_mono hn)⟩
  change h hch := h.change hch
  delegate h hx := h.delegate hx
  log h hc := ⟨h.ledger, fun hfit => by rw [ballot_log _ _ _ _ hc]; exact h.counted hfit⟩

theorem Deployed.votesInv {log : List Event} {w₀ w : World} (h₀ : Deployed w₀)
    (hs : Steps w₀ log w) : VotesInv (week w₀.now) log w.now w.locker :=
  (inductive_votesInv _).steps [] ⟨h₀.deploys.ledgerInv, fun _ => h₀.deploys.counted⟩ hs

theorem Reachable.votesInv {log : List Event} {w : World} (h : Reachable log w) :
    ∃ first, VotesInv first log w.now w.locker :=
  let ⟨_, h₀, hs⟩ := h
  ⟨_, h₀.votesInv hs⟩

end Aura.Locker
