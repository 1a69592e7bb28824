import Aura.Ballot
import Aura.Locker.Locks

/-!
# AuraLocker : vote checkpoints

The checkpoints of a delegatee `D` record its votes in the weeks before which something
other than an expiry happened, and `delegateeUnlocks` what expires in each week. `Recorded`
says so against a `Ballot`, the full history of votes. Reading at any past week
(`Recorded.getPastVotes_eq`) and writing at the upcoming one (`Recorded.writeCheckpoint_eq`)
then compute the votes of the ballot, because over quiet weeks votes only expire.
-/

open Evm Finset

namespace Aura.Locker

open AuraMath

/-! ## Binary search -/

/-- The loop of `_checkpointsLookup` keeps the entries below `low` at or before the epoch and
the entries from `high` on after it. -/
structure Between (ckpts : List DelegateeCheckpoint) (E : ℕ) (s : ℕ × ℕ) : Prop where
  low_le : s.1 ≤ s.2
  high_le : s.2 ≤ ckpts.length
  below : ∀ c ∈ ckpts.take s.1, c.epochStart ≤ E
  above : ∀ c ∈ ckpts.drop s.2, E < c.epochStart

/-- One round of the search. -/
theorem Between.step {ckpts : List DelegateeCheckpoint} {E : ℕ}
    (hs : ckpts.Pairwise fun c c' => c.epochStart < c'.epochStart) {s : ℕ × ℕ}
    (h : Between ckpts E s) (hc : decide (s.1 < s.2) = true) :
    ∃ s', (do
        let mid := average s.1 s.2
        let ckpt ← index ckpts mid
        if E < ckpt.epochStart then .ok (s.1, mid) else .ok (mid + 1, s.2) : Tx (ℕ × ℕ)) = .ok s' ∧
      Between ckpts E s' ∧ s'.2 - s'.1 < s.2 - s.1 := by
  obtain ⟨low, high⟩ := s
  obtain ⟨-, hlen, hbelow, habove⟩ := h
  simp only [decide_eq_true_eq] at hc hlen hbelow habove
  have hmid : low ≤ average low high ∧ average low high < high := by
    rw [average_eq]
    omega
  obtain ⟨c, hcm⟩ : ∃ c, ckpts[average low high]? = some c :=
    ⟨_, List.getElem?_eq_getElem (by omega)⟩
  have hsplit := List.take_append_drop (average low high) ckpts
  have hdrop : ckpts.drop (average low high) = c :: ckpts.drop (average low high + 1) := by
    obtain ⟨h, rfl⟩ := List.getElem?_eq_some_iff.1 hcm
    exact List.drop_eq_getElem_cons h
  rw [hdrop] at hsplit
  rw [← hsplit] at hs
  obtain ⟨-, htail, hcross⟩ := List.pairwise_append.1 hs
  dsimp only
  rw [index_eq_ok.2 hcm, ok_bind]
  by_cases hE : E < c.epochStart
  · rw [if_pos hE]
    refine ⟨_, rfl, ⟨hmid.1, by dsimp only; omega, hbelow, fun c' hc' => ?_⟩, by dsimp only; omega⟩
    -- everything after `mid` is later still
    dsimp only at hc'
    rw [hdrop] at hc'
    rcases List.mem_cons.1 hc' with rfl | hc'
    · exact hE
    · exact hE.trans ((List.pairwise_cons.1 htail).1 c' hc')
  · rw [if_neg hE]
    refine ⟨_, rfl, ⟨by dsimp only; omega, hlen, fun c' hc' => ?_, habove⟩, by dsimp only; omega⟩
    -- everything before `mid` is earlier still
    dsimp only at hc'
    rw [List.take_add_one, hcm] at hc'
    rcases List.mem_append.1 hc' with hc' | hc'
    · exact (hcross c' hc' c (by simp)).le.trans (not_lt.1 hE)
    · obtain rfl : c' = c := by simpa using hc'
      exact not_lt.1 hE

/-- The lookup finds the last checkpoint at or before the epoch. -/
theorem checkpointsLookup_eq {ckpts : List DelegateeCheckpoint}
    (hs : ckpts.Pairwise fun c c' => c.epochStart < c'.epochStart) (E : ℕ) :
    ∃ pre post, ckpts = pre ++ post ∧ (∀ c ∈ pre, c.epochStart ≤ E) ∧
      (∀ c ∈ post, E < c.epochStart) ∧
      _checkpointsLookup ckpts E = .ok (pre.getLast?.getD ⟨0, 0⟩) := by
  obtain ⟨⟨low, high⟩, hloop, ⟨hle, hlen, hbelow, habove⟩, hdone⟩ :=
    loop_total (Between ckpts E) (fun s => s.2 - s.1) (fun s h hc => h.step hs hc)
      ckpts.length (0, ckpts.length) ⟨Nat.zero_le _, le_rfl, by simp, by simp⟩ (by simp)
  simp only [decide_eq_false_iff_not, not_lt] at hle hlen hbelow habove hdone
  obtain rfl : low = high := le_antisymm hle hdone
  refine ⟨ckpts.take low, ckpts.drop low, (List.take_append_drop low ckpts).symm, hbelow, habove,
    ?_⟩
  unfold _checkpointsLookup
  rw [hloop, ok_bind]
  dsimp only
  by_cases hz : low = 0
  · simp [hz]
  · rw [if_neg hz]
    have hlast : ckpts[low - 1]? = some ckpts[low - 1] := List.getElem?_eq_getElem (by omega)
    rw [index_eq_ok.2 hlast, List.getLast?_take, if_neg hz, hlast]
    rfl

/-! ## What the checkpoints record -/

variable {User : Type} [Fintype User]

/-- The checkpoints of `D` up to week `n + 1` record the votes of a ballot : each has the
votes of its week, and the weeks before which there is none are quiet. -/
structure Recorded (b : Ballot User Address) (D : Address) (n : ℕ)
    (ckpts : List DelegateeCheckpoint) : Prop where
  sorted : ckpts.Pairwise fun c c' => c.epochStart < c'.epochStart
  exact : ∀ c ∈ ckpts, ∃ k ≤ n + 1, c.epochStart = k * rewardsDuration ∧ c.votes = b.votes D k
  bounded : ∀ c ∈ ckpts, c.votes < 2 ^ 224
  quiet : ∀ k ≤ n, (∀ c ∈ ckpts, c.epochStart ≠ (k + 1) * rewardsDuration) → b.Quiet D k
  zero : b.votes D 0 = 0

/-- The sum over scheduled unlocks is a sum over expiries. -/
theorem sumDown_eq_sum {f e : ℕ → ℕ} {k : ℕ} :
    ∀ {m : ℕ}, (∀ j ≤ k + m, f (j * rewardsDuration) = e j) →
      sumDown f rewardsDuration k m = ∑ i ∈ range m, e (k + i + 1)
  | 0, _ => by simp [sumDown]
  | m + 1, h => by
    rw [sumDown, sumDown_eq_sum fun j hj => h j (by omega), sum_range_succ, h _ le_rfl,
      Nat.add_comm]
    rfl

variable {b : Ballot User Address} {D : Address} {n : ℕ} {ckpts : List DelegateeCheckpoint}

/-- From the last checkpoint at or before week `k` on it has been quiet. -/
theorem Recorded.quiet_since (h : Recorded b D n ckpts) (pre post : List DelegateeCheckpoint)
    {j k : ℕ} (hsplit : ckpts = pre ++ post) (hk : k ≤ n + 1)
    (hpre : ∀ c ∈ pre, c.epochStart ≤ j * rewardsDuration)
    (hpost : ∀ c ∈ post, k * rewardsDuration < c.epochStart) (hjk : j ≤ k) :
    ∀ i < k - j, b.Quiet D (j + i) := by
  intro i hi
  refine h.quiet (j + i) (by omega) fun c hc he => ?_
  rw [hsplit] at hc
  rcases List.mem_append.1 hc with hc | hc
  · have hle := hpre c hc
    rw [he] at hle
    have := Nat.le_of_mul_le_mul_right hle rewardsDuration_pos
    omega
  · have hlt := hpost c hc
    rw [he] at hlt
    have := Nat.lt_of_mul_lt_mul_right hlt
    omega

/-- Reading : the last checkpoint less what has expired since. -/
theorem Recorded.lookup (h : Recorded b D n ckpts) {k : ℕ} (hk : k ≤ n + 1) :
    ∃ j ≤ k, ∃ votes < 2 ^ 224, _checkpointsLookup ckpts (k * rewardsDuration) =
        .ok ⟨votes, j * rewardsDuration⟩ ∧
      votes = b.votes D j ∧ ∀ i < k - j, b.Quiet D (j + i) := by
  obtain ⟨pre, post, hsplit, hpre, hpost, heq⟩ :=
    checkpointsLookup_eq h.sorted (k * rewardsDuration)
  cases hl : pre.getLast? with
  | none =>
    obtain rfl := List.getLast?_eq_none_iff.1 hl
    refine ⟨0, Nat.zero_le k, 0, by norm_num, by rw [heq, hl, Nat.zero_mul]; rfl, h.zero.symm, ?_⟩
    exact h.quiet_since _ _ hsplit hk (by simp) hpost (Nat.zero_le k)
  | some c =>
    have hmem := List.mem_of_getLast? hl
    have hmem' : c ∈ ckpts := hsplit ▸ List.mem_append_left post hmem
    obtain ⟨j, -, hj, hv⟩ := h.exact c hmem'
    have hjk : j ≤ k := by
      have hle := hpre c hmem
      rw [hj] at hle
      exact Nat.le_of_mul_le_mul_right hle rewardsDuration_pos
    refine ⟨j, hjk, c.votes, h.bounded c hmem', by rw [heq, hl, ← hj]; rfl, hv, ?_⟩
    refine h.quiet_since _ _ hsplit hk (fun c' hc' => ?_) hpost hjk
    -- `c` is the last of `pre`
    rw [← hj]
    have hsorted := h.sorted
    rw [hsplit] at hsorted
    exact le_getLast (List.pairwise_append.1 hsorted).1 hc' hl

/-- What expires since week `j` is what the votes lose. -/
theorem Recorded.sumDown_add {f : ℕ → ℕ} {j k : ℕ} (hjk : j ≤ k) (hk : k ≤ n + 1)
    (hu : ∀ i ≤ n + 1, f (i * rewardsDuration) = b.expiring D i)
    (hq : ∀ i < k - j, b.Quiet D (j + i)) :
    b.votes D k + sumDown f rewardsDuration j (k - j) = b.votes D j := by
  have hadd := b.votes_add hq
  rw [Nat.add_sub_cancel' hjk] at hadd
  rw [sumDown_eq_sum fun i hi => hu i (by omega), hadd]

/-- Nothing is left of votes that were zero or have been expiring for long enough. -/
theorem Recorded.votes_eq_zero {j k : ℕ} (hterm : b.term ≤ 17) (hjk : j ≤ k)
    (hq : ∀ i < k - j, b.Quiet D (j + i))
    (h : b.votes D j = 0 ∨ j * rewardsDuration + lockDuration ≤ k * rewardsDuration) :
    b.votes D k = 0 := by
  rw [← Nat.add_sub_cancel' hjk]
  rcases h with h | h
  · exact Nat.le_zero.1 (h ▸ b.votes_le hq)
  · rw [lockDuration_eq, ← Nat.add_mul] at h
    have := Nat.le_of_mul_le_mul_right h rewardsDuration_pos
    exact b.votes_eq_zero hq (by omega)

/-- `getPastVotes` reads the votes of the ballot. -/
theorem Recorded.getPastVotes_eq {s : Storage} {now t : ℕ}
    (h : Recorded b D n (s.voting.checkpointedVotes D)) (hterm : b.term ≤ 17)
    (hu : ∀ j ≤ n + 1, s.voting.delegateeUnlocks D (j * rewardsDuration) = b.expiring D j)
    (ht : t ≤ now) (hk : week t ≤ n + 1) : getPastVotes s now D t = .ok (b.votes D (week t)) := by
  obtain ⟨j, hjk, votes, -, hlook, rfl, hq⟩ := h.lookup hk
  unfold getPastVotes
  rw [require_of ht, ok_bind]
  dsimp only
  rw [epochOf_eq, hlook, ok_bind]
  dsimp only
  split_ifs with hz
  · rw [Recorded.votes_eq_zero hterm hjk hq hz]
  · have hadd := Recorded.sumDown_add hjk hk hu hq
    have hfuel : week t - j ≤ week t * rewardsDuration :=
      (Nat.sub_le _ _).trans (Nat.le_mul_of_pos_right _ rewardsDuration_pos)
    have hloop := loop_subDown (f := s.voting.delegateeUnlocks D) (k := j) rewardsDuration_pos
      (week t - j) (week t * rewardsDuration) (b.votes D j) hfuel (by omega)
    rw [Nat.add_sub_cancel' hjk] at hloop
    unfold sub
    rw [hloop, ok_bind]
    dsimp only
    rw [← hadd, Nat.add_sub_cancel]

/-- Writing : whatever branch is taken, the new checkpoint starts from the votes of the
upcoming week. -/
theorem Recorded.writeCheckpoint_eq (h : Recorded b D n ckpts) (hterm : b.term ≤ 17)
    {unlocks : ℕ → ℕ} (hu : ∀ j ≤ n + 1, unlocks (j * rewardsDuration) = b.expiring D j)
    (addition deduction : ℕ) :
    ∃ base tail, ckpts = base ++ tail ∧ (∀ c ∈ base, c.epochStart < (n + 1) * rewardsDuration) ∧
      (∀ c ∈ tail, c.epochStart = (n + 1) * rewardsDuration) ∧
      writeCheckpoint ckpts unlocks ((n + 1) * rewardsDuration) addition deduction =
        checkpointAt (b.votes D (n + 1)) addition deduction ((n + 1) * rewardsDuration) >>=
          fun c => .ok (base ++ [c]) := by
  unfold writeCheckpoint
  cases hl : ckpts.getLast? with
  | none =>
    obtain rfl := List.getLast?_eq_none_iff.1 hl
    have hq : ∀ i < n + 1 - 0, b.Quiet D (0 + i) :=
      h.quiet_since [] [] rfl le_rfl (by simp) (by simp) (Nat.zero_le _)
    rw [Recorded.votes_eq_zero hterm (Nat.zero_le _) hq (.inl h.zero)]
    exact ⟨[], [], rfl, by simp, by simp, rfl⟩
  | some c =>
    have hd := List.dropLast_append_getLast? c hl
    have hsorted := h.sorted
    rw [← hd] at hsorted
    have hbefore : ∀ c' ∈ ckpts.dropLast, c'.epochStart < c.epochStart :=
      fun c' hc' => (List.pairwise_append.1 hsorted).2.2 c' hc' c (by simp)
    obtain ⟨j, hj, hcj, hv⟩ := h.exact c (List.mem_of_getLast? hl)
    dsimp only
    by_cases he : c.epochStart = (n + 1) * rewardsDuration
    · -- the checkpoint of the upcoming week is overwritten
      obtain rfl : j = n + 1 := Nat.eq_of_mul_eq_mul_right rewardsDuration_pos (hcj.symm.trans he)
      rw [if_pos he, hv]
      exact ⟨ckpts.dropLast, [c], hd.symm, he ▸ hbefore, by simp [he], rfl⟩
    · have hjn : j ≤ n := by
        refine Nat.lt_succ_iff.1 (hj.lt_of_ne fun hjn => he ?_)
        rw [hcj, hjn]
      have hall : ∀ c' ∈ ckpts, c'.epochStart ≤ j * rewardsDuration := fun c' hc' =>
        hcj ▸ le_getLast h.sorted hc' hl
      have hq := h.quiet_since ckpts [] (by simp) le_rfl hall (by simp) (hjn.trans (Nat.le_succ n))
      have hlt : ∀ c' ∈ ckpts, c'.epochStart < (n + 1) * rewardsDuration := fun c' hc' =>
        (hall c' hc').trans_lt (Nat.mul_lt_mul_of_pos_right (by omega) rewardsDuration_pos)
      refine ⟨ckpts, [], by simp, hlt, by simp, ?_⟩
      rw [if_neg he, hcj]
      split_ifs with hold
      · rw [Recorded.votes_eq_zero hterm (by omega) hq (.inr hold)]
      · have hadd := Recorded.sumDown_add (by omega) le_rfl hu hq
        have hbound := h.bounded c (List.mem_of_getLast? hl)
        rw [hv] at hbound
        have hfuel : n + 1 - j ≤ (n + 1) * rewardsDuration :=
          (Nat.sub_le _ _).trans (Nat.le_mul_of_pos_right _ rewardsDuration_pos)
        have hloop := loop_sumDown (f := unlocks) (k := j) 256 rewardsDuration_pos
          (n + 1 - j) ((n + 1) * rewardsDuration) 0 hfuel (by
            rw [Nat.zero_add]
            exact (Nat.le.intro (Nat.add_comm _ _ ▸ hadd)).trans_lt
              (hbound.trans (by norm_num)))
        rw [Nat.add_sub_cancel' (by omega)] at hloop
        unfold add sub
        rw [hloop, ok_bind]
        dsimp only
        rw [hv, Nat.zero_add, usub_of (by omega), ok_bind, ← hadd, Nat.add_sub_cancel]

/-- The records after a checkpoint was written for a ballot that differs in the upcoming
week only. -/
theorem Recorded.write {b' : Ballot User Address} (h : Recorded b D n ckpts)
    {base tail : List DelegateeCheckpoint} (hsplit : ckpts = base ++ tail)
    (hbase : ∀ c ∈ base, c.epochStart < (n + 1) * rewardsDuration)
    (htail : ∀ c ∈ tail, c.epochStart = (n + 1) * rewardsDuration)
    (hv : ∀ k ≤ n, b'.votes D k = b.votes D k) (hq : ∀ k < n, b.Quiet D k → b'.Quiet D k)
    (hlt : b'.votes D (n + 1) < 2 ^ 224) :
    Recorded b' D n (base ++ [⟨b'.votes D (n + 1), (n + 1) * rewardsDuration⟩]) := by
  have hsorted := h.sorted
  rw [hsplit] at hsorted
  refine ⟨?_, fun c hc => ?_, fun c hc => ?_, fun k hk hnone => ?_, ?_⟩
  · refine List.pairwise_append.2 ⟨(List.pairwise_append.1 hsorted).1, by simp, ?_⟩
    rintro c hc c' hc'
    rw [List.mem_singleton.1 hc']
    exact hbase c hc
  · rcases List.mem_append.1 hc with hc' | hc'
    · obtain ⟨k, hk, hck, hcv⟩ := h.exact c (hsplit ▸ List.mem_append_left tail hc')
      have hkn : k ≤ n := by
        have hlt := hbase c hc'
        rw [hck] at hlt
        exact Nat.lt_succ_iff.1 (Nat.lt_of_mul_lt_mul_right hlt)
      exact ⟨k, hk, hck, hcv.trans (hv k hkn).symm⟩
    · rw [List.mem_singleton.1 hc']
      exact ⟨n + 1, le_rfl, rfl, rfl⟩
  · rcases List.mem_append.1 hc with hc' | hc'
    · exact h.bounded c (hsplit ▸ List.mem_append_left tail hc')
    · rw [List.mem_singleton.1 hc']
      exact hlt
  · have hkn : k < n := hk.lt_of_ne fun hkn =>
      hnone ⟨b'.votes D (n + 1), (n + 1) * rewardsDuration⟩ (by simp) (by rw [hkn])
    refine hq k hkn (h.quiet k hk fun c hc he => ?_)
    rw [hsplit] at hc
    rcases List.mem_append.1 hc with hc | hc
    · exact hnone c (List.mem_append_left _ hc) he
    · rw [htail c hc] at he
      have := Nat.eq_of_mul_eq_mul_right rewardsDuration_pos he
      omega
  · rw [hv 0 (Nat.zero_le n), h.zero]

/-- The records of a delegatee whose votes up to the upcoming week do not change. -/
theorem Recorded.keep {b' : Ballot User Address} (h : Recorded b D n ckpts)
    (hv : ∀ k ≤ n + 1, b'.votes D k = b.votes D k) (hq : ∀ k ≤ n, b.Quiet D k → b'.Quiet D k) :
    Recorded b' D n ckpts := by
  refine ⟨h.sorted, fun c hc => ?_, h.bounded, fun k hk hnone => hq k hk (h.quiet k hk hnone), ?_⟩
  · obtain ⟨k, hk, hck, hcv⟩ := h.exact c hc
    exact ⟨k, hk, hck, hcv.trans (hv k hk).symm⟩
  · rw [hv 0 (Nat.zero_le _), h.zero]

/-- The records in a later week. -/
theorem Recorded.time {n' : ℕ} (h : Recorded b D n ckpts) (hn : n ≤ n')
    (hq : ∀ k, n < k → b.Quiet D k) : Recorded b D n' ckpts := by
  refine ⟨h.sorted, fun c hc => ?_, h.bounded, fun k _ hnone => ?_, h.zero⟩
  · obtain ⟨k, hk, hck, hcv⟩ := h.exact c hc
    exact ⟨k, by omega, hck, hcv⟩
  · rcases Nat.lt_or_ge n k with hlt | hge
    · exact hq k hlt
    · exact h.quiet k hge hnone

end Aura.Locker
