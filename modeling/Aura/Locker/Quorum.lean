import Aura.Locker.History

/-!
# AuraLocker : votes and supply

A governor on top of the locker compares `getPastVotes` with `getPastTotalSupply`. The two
are computed apart : votes from the checkpoints of each delegatee and the unlocks scheduled
for it, the supply from the epochs. They agree (`votes_add_undelegated`) : at every time
since the deployment, the votes of all delegatees and what the users without a delegatee
have active add up to the supply. In particular votes never exceed it.
-/

open Evm Finset

namespace Aura.Locker

open AuraMath

variable {first n now t : ℕ} {s : Storage} {log : List Event}

/-! ## The epoch of a time -/

/-- The epoch of a time since the deployment is found. -/
theorem Dated.findEpochId_eq (h : Dated first n now s) (ht : first * rewardsDuration ≤ t) :
    findEpochId s t = .ok (week t - first) := by
  have h0 : s.ledger.epochs[0]? =
      some ⟨lockedIn s.ledger.userLocks first, first * rewardsDuration⟩ := by
    simp [h.epochs, epochsFrom, List.range'_succ]
  unfold findEpochId
  rw [index_eq_ok.2 h0, ok_bind, sub, usub_of ht, ok_bind, Nat.mul_comm first, Nat.sub_mul_div]
  rfl

/-- The epochs fit in a word as long as their starts do. -/
theorem Dated.epochStartOf_add (h : Dated first n now s) {e : ℕ}
    (he : (first + e) * rewardsDuration < 2 ^ 256) :
    epochStartOf s e = .ok ((first + e) * rewardsDuration) := by
  rw [Nat.add_mul] at he ⊢
  rw [h.epochStartOf_first, mul, umul_of (by omega), ok_bind, add, uadd_of he]

/-- `getPastTotalSupply` is what all users have active at the epoch. -/
theorem Dated.getPastTotalSupply_eq (h : Dated first n now s) (log : List Event)
    (hold : 17 ≤ first) (hfit : Fits now) (hfrom : first * rewardsDuration ≤ t) (ht : t < now) :
    getPastTotalSupply s now t = .ok (∑ u, (ballot log s.ledger.userLocks).active u (week t)) := by
  have hfirst : first ≤ week t := (Nat.le_div_iff_mul_le rewardsDuration_pos).2 hfrom
  have hweek : first + (week t - first) = week t := Nat.add_sub_cancel' hfirst
  have hstart : week t * rewardsDuration ≤ t := epochOf_le t
  have hnow : now < 2 ^ 256 := by
    have hlt := Nat.lt_div_mul_add (a := now) rewardsDuration_pos
    have hf : epochOf now + lockDuration < 2 ^ 32 := hfit
    have hle : rewardsDuration ≤ lockDuration := by decide
    rw [epochOf_eq] at hf
    unfold week at hf
    omega
  have hE := h.epochStartOf_add (e := week t - first) (by rw [hweek]; omega)
  have hviews := (h.epoch_views log hE (by rw [hweek]; omega)).2
  rw [hweek, if_pos (hold.trans hfirst)] at hviews
  unfold getPastTotalSupply
  rw [require_of ht, ok_bind, h.findEpochId_eq hfrom, ok_bind, hviews]

/-! ## Votes and supply -/

/-- As long as unlock times fit in `uint32`, for a locker deployed at least 17 weeks after time
zero, and at every time since the week of its deployment : the supply is the votes of all
delegatees and what the users without a delegatee had active. -/
theorem votes_add_undelegated {log : List Event} {w₀ w : World} {t : ℕ} (h₀ : Deployed w₀)
    (hold : lockDuration ≤ w₀.now) (hs : Steps w₀ log w) (hfit : Fits w.now)
    (hfrom : epochOf w₀.now ≤ t) (ht : t < w.now) :
    ∃ votes : Address → ℕ, (∀ D, getPastVotes w.locker w.now D t = .ok (votes D)) ∧
      getPastTotalSupply w.locker w.now t = .ok (∑ D, votes D +
        ∑ u with delegateBefore log u (epochOf t) = none,
          activeAmount (w.locker.ledger.userLocks u) (epochOf t)) := by
  have hinv := h₀.votesInv hs
  obtain ⟨n, hd⟩ := hinv.ledger.dated hfit
  have hc := hinv.counted hfit
  have hk : week t ≤ week w.now := week_mono ht.le
  have hfirst : 17 ≤ week w₀.now := by
    rw [lockDuration_eq] at hold
    exact (Nat.le_div_iff_mul_le rewardsDuration_pos).2 hold
  refine ⟨fun D => (ballot log w.locker.ledger.userLocks).votes D (week t), fun D => ?_, ?_⟩
  · exact (hc.recorded D).getPastVotes_eq hc.term_le (fun j _ => hc.unlocks D j) ht.le
      (hk.trans (Nat.le_succ _))
  · have hsum := (ballot log w.locker.ledger.userLocks).sum_votes_add (week t)
    rw [hd.getPastTotalSupply_eq log hfirst hfit hfrom ht, ← hsum]
    simp only [active_ballot log hd]
    rfl

/-- The account 1 locks and delegates to 2, and locks for 3, which has no delegatee. -/
theorem votes_add_undelegated_run : ∃ w : World, ∃ votes : Address → ℕ, ∃ t,
    (∀ D, getPastVotes w.locker w.now D t = .ok (votes D)) ∧ 0 < votes 2 ∧
      ∃ supply, getPastTotalSupply w.locker w.now t = .ok supply ∧ ∑ D, votes D ≤ supply := by
  let start := 20 * rewardsDuration
  let log : List Event := [⟨start, 1, .lock 1 5⟩, ⟨start, 1, .delegate 2⟩, ⟨start, 1, .lock 3 7⟩,
    ⟨start + 2 * rewardsDuration, 1, .checkpointEpoch⟩]
  obtain ⟨votes, hvotes, hsupply⟩ := votes_add_undelegated (w := (World.initial start).after log)
    (t := start + rewardsDuration) (World.initial_deployed (by decide)) (by decide)
    (.after (by decide +kernel)) (by decide +kernel) (by decide +kernel) (by decide +kernel)
  refine ⟨_, votes, _, hvotes, ?_, _, hsupply, Nat.le_add_right _ _⟩
  have h2 := hvotes 2
  rw [show getPastVotes _ _ 2 (start + rewardsDuration) = .ok 5 by decide +kernel,
    Except.ok.injEq] at h2
  rw [← h2]
  decide

end Aura.Locker
