import Aura.Locker.Votes

/-!
# AuraLocker : getPastVotes

In every reachable world `getPastVotes` returns what the users of a delegatee have active
at the start of the epoch (`getPastVotes_exact`), and no subtraction in the delegation code
underflows. Both hold as long as unlock times fit in the `uint32` they are stored in. An
unlock time that does not fit is truncated, and its lock is counted in the votes of its
delegatee but not in the lock records (`getPastVotes_truncated`).
-/

open Evm Function Finset

namespace Aura.Locker

open AuraMath

variable {n now : ℕ}

/-- The votes of `D` at the epoch start `E` : what the users whose delegatee was `D` before
`E` have active at `E`. -/
def votesAt (log : List Event) (userLocks : Address → List LockedBalance) (D : Address) (E : ℕ) :
    ℕ :=
  ∑ u, if delegateBefore log u E = some D then activeAmount (userLocks u) E else 0

/-- The active weight of the ballot, in terms of the lock records. -/
theorem active_ballot {first : ℕ} {s : Storage} (log : List Event) (hd : Dated first n now s)
    (u : Address) (k : ℕ) : (ballot log s.ledger.userLocks).active u k =
      activeAmount (s.ledger.userLocks u) (k * rewardsDuration) := by
  rw [(hd.dated u).activeAmount_eq, Ballot.active]
  rfl

/-- The votes of the ballot, in terms of the lock records. -/
theorem votes_ballot {first : ℕ} {s : Storage} (log : List Event) (hd : Dated first n now s)
    (D : Address) (k : ℕ) : (ballot log s.ledger.userLocks).votes D k =
      votesAt log s.ledger.userLocks D (k * rewardsDuration) := by
  unfold Ballot.votes votesAt
  simp only [active_ballot log hd]
  rfl

/-- No subtraction inside `delegate` underflows. -/
theorem VotesInv.delegate_ne_underflow {first : ℕ} {log : List Event} {s : Storage}
    (h : VotesInv first log now s) (hfit : Fits now) (u D : Address) :
    Locker.delegate s now u D ≠ .error .underflow := by
  have hc := h.counted hfit
  obtain ⟨n, hd⟩ := h.ledger.dated hfit
  have hlocks := (hd.dated u).mono hd.current
  unfold Locker.delegate
  refine bind_ne_underflow (require_ne_underflow _) fun _ _ => ?_
  refine bind_ne_underflow (require_ne_underflow _) fun _ _ => ?_
  refine bind_ne_underflow (require_ne_underflow _) fun _ hne => ?_
  rw [require_eq_ok] at hne
  refine bind_ne_underflow (upcomingEpoch_ne_underflow now) fun E hE => ?_
  obtain rfl := upcomingEpoch_eq_ok hE
  refine bind_ne_underflow (hc.moved_ne_underflow hne hlocks fun _ => rfl) fun moved hm => ?_
  obtain ⟨hsum, -, hbefore⟩ := hc.moved hlocks (fun _ => rfl) hm
  rw [hsum]
  refine bind_ne_underflow (hc.leave_ne_underflow hbefore) fun v₁ h₁ => ?_
  obtain ⟨ckpts, rfl, hother, -⟩ := hc.leave hne hbefore h₁
  refine bind_ne_underflow ?_ fun _ _ => ok_ne_underflow _
  have hr : Recorded (ballot log s.ledger.userLocks) D (week now) (ckpts D) := by
    rw [hother D hne]
    exact hc.recorded D
  exact checkpointDelegate_ne_underflow hr hc.term_le (hbefore D) (Nat.zero_le _)

/-- As long as unlock times fit in `uint32`, `getPastVotes` returns the votes of the epoch,
and no subtraction in the delegation code underflows, in any storage a call passes through. -/
theorem getPastVotes_exact {log : List Event} {w : World} (h : Reachable log w)
    (hfit : Fits w.now) :
    (∀ D t, t ≤ w.now → getPastVotes w.locker w.now D t =
      .ok (votesAt log w.locker.ledger.userLocks D (epochOf t))) ∧
    (∀ u D, delegate w.locker w.now u D ≠ .error .underflow) ∧
    ∀ s, Relation.ReflTransGen (Change w.now) w.locker s → ∀ a,
      _checkpointDelegate s.voting w.now (s.voting.delegates a) 0 0 ≠ .error .underflow ∧
      ∀ m, lockVotes s.voting w.now a m (epochOf w.now + lockDuration) ≠ .error .underflow := by
  obtain ⟨first, hinv⟩ := h.votesInv
  refine ⟨fun D t ht => ?_, hinv.delegate_ne_underflow hfit, fun s hs a => ?_⟩
  · obtain ⟨n, hd⟩ := hinv.ledger.dated hfit
    have hc := hinv.counted hfit
    have hk : week t ≤ week w.now := week_mono ht
    rw [(hc.recorded D).getPastVotes_eq hc.term_le (fun j _ => hc.unlocks D j) ht
      (hk.trans (Nat.le_succ _)), votes_ballot log hd, epochOf_eq]
  · have hs : VotesInv first log w.now s := by
      induction hs with
      | refl => exact hinv
      | tail _ hch ih => exact ih.change hch
    have hc := hs.counted hfit
    exact ⟨hc.roll_ne_underflow a, hc.lock_ne_underflow a⟩

/-- The account 1 locks and delegates to 2 in week 20 and is asked about in week 21. -/
theorem getPastVotes_exact_run : ∃ log : List Event, ∃ w : World,
    getPastVotes w.locker w.now 2 w.now =
      .ok (votesAt log w.locker.ledger.userLocks 2 (epochOf w.now)) := by
  let start := 20 * rewardsDuration
  let log : List Event := [⟨start, 1, .lock 1 5⟩, ⟨start, 1, .delegate 2⟩,
    ⟨start + rewardsDuration, 1, .checkpointEpoch⟩]
  have h : Reachable log ((World.initial start).after log) :=
    ⟨_, World.initial_deployed (by decide), .after (by decide +kernel)⟩
  exact ⟨log, _, (getPastVotes_exact h (by decide +kernel)).1 2 _ le_rfl⟩

/-- A lock whose unlock time does not fit in `uint32` counts for the delegatee of its owner,
although no lock record is active. -/
theorem getPastVotes_truncated : ¬∀ {log : List Event} {w : World}, Reachable log w →
    ∀ D t, t ≤ w.now → getPastVotes w.locker w.now D t =
      .ok (votesAt log w.locker.ledger.userLocks D (epochOf t)) := by
  intro h
  let start := 7085 * rewardsDuration
  let log : List Event := [⟨start, 1, .lock 1 5⟩, ⟨start, 1, .delegate 2⟩,
    ⟨start, 1, .lock 1 5⟩, ⟨start + rewardsDuration, 1, .checkpointEpoch⟩]
  let w := (World.initial start).after log
  have hrun : Reachable log w :=
    ⟨_, World.initial_deployed (by decide), .after (by decide +kernel)⟩
  have hvotes := h hrun 2 w.now le_rfl
  have hcounted : getPastVotes w.locker w.now 2 w.now = .ok 5 := by decide +kernel
  have hzero : votesAt log w.locker.ledger.userLocks 2 (epochOf w.now) = 0 := by
    refine sum_eq_zero fun u _ => ?_
    by_cases hu : u = 1
    · subst hu
      decide +kernel
    · rw [if_neg]
      have hdel : delegateBefore log u (epochOf w.now) = none := by
        simp [delegateBefore, log, Ne.symm hu]
      rw [hdel]
      exact nofun
  rw [hcounted, hzero, Except.ok.injEq] at hvotes
  exact absurd hvotes (by decide)

end Aura.Locker
