import Aura.Locker.Specs

/-!
# AuraLocker : what a lock reverts for

The only transfer of `lock` takes the tokens from the caller. A caller that holds them is
never told that they are missing (`lock_avoids`).
-/

open Evm

namespace Aura.Locker

open AuraMath

/-- The revert reason of a transfer of more than the balance. -/
def exceedsBalance : String :=
  "ERC20: transfer amount exceeds balance"

variable {A : Type} [Fintype A] [DecidableEq A] [Zero A]

/-- A transfer of no more than the balance. -/
theorem transfer_avoids (t : Erc20 A) (src dst : A) {n : ℕ} (hn : n ≤ t.balanceOf src) :
    Avoids exceedsBalance (t.transfer src dst n) := by
  unfold Erc20.transfer
  refine (avoids_require (by decide)).then fun _ => (avoids_require (by decide)).then fun _ => ?_
  rw [dif_pos hn]
  exact avoids_ok _

theorem transferFrom_avoids (t : Erc20 A) (spender src dst : A) {n : ℕ}
    (hn : n ≤ t.balanceOf src) : Avoids exceedsBalance (t.transferFrom spender src dst n) := by
  unfold Erc20.transferFrom
  refine (transfer_avoids t src dst hn).then fun t' => ?_
  refine (avoids_require (by decide)).then fun _ => ?_
  unfold Erc20.approve
  exact (avoids_require (by decide)).then fun _ => (avoids_require (by decide)).then fun _ =>
    avoids_ok _

theorem rewardPerToken_avoids (s : Storage) (now : ℕ) (token : Address) :
    Avoids exceedsBalance (_rewardPerToken s now token) := by
  unfold _rewardPerToken
  dsimp only
  split_ifs
  · exact avoids_ok _
  · exact (avoids_usub _ _).then fun _ => (avoids_umul _ _ _).then fun _ =>
      (avoids_umul _ _ _).then fun _ => (avoids_udiv _ _).then fun _ => avoids_uadd _ _ _

theorem updateReward_avoids (s : Storage) (now : ℕ) (a : Address) :
    Avoids exceedsBalance (updateReward s now a) := by
  refine avoids_foldlM (fun s token => ?_) _ _
  unfold updateRewardToken
  refine (rewardPerToken_avoids s now token).then fun _ => ?_
  refine (avoids_ucast (by decide)).then fun _ => (avoids_ucast (by decide)).then fun _ => ?_
  dsimp only
  split_ifs
  · refine (avoids_ucast (by decide)).then fun _ => ?_
    refine Avoids.then ?_ fun _ => (avoids_ucast (by decide)).then fun _ => avoids_ok _
    unfold _earned
    exact (rewardPerToken_avoids _ now token).then fun _ => (avoids_usub _ _).then fun _ =>
      (avoids_umul _ _ _).then fun _ => avoids_uadd _ _ _
  · exact avoids_ok _

theorem checkpointEpoch_avoids (l : Ledger) (now : ℕ) :
    Avoids exceedsBalance (_checkpointEpoch l now) := by
  unfold _checkpointEpoch
  refine (avoids_last _).then fun e => ?_
  split_ifs
  · exact (avoids_loop (fun _ => (avoids_uadd _ _ _).then fun _ => avoids_ok _) _ _).then
      fun _ => avoids_ok _
  · exact avoids_ok _

theorem lockLedger_avoids (l : Ledger) (a : Address) (n k T : ℕ) :
    Avoids exceedsBalance (lockLedger l a n k T) := by
  have hadd : Avoids exceedsBalance (addLock (l.userLocks a) k T) := by
    unfold addLock
    split
    · exact avoids_ok _
    · split_ifs
      · exact avoids_ok _
      · exact (avoids_uadd _ _ _).then fun _ => avoids_ok _
  unfold lockLedger
  exact (avoids_uadd _ _ _).then fun _ => (avoids_uadd _ _ _).then fun _ =>
    hadd.then fun _ => (avoids_last _).then fun _ => (avoids_uadd _ _ _).then fun _ => avoids_ok _

theorem writeCheckpoint_avoids (ckpts : List DelegateeCheckpoint) (u : ℕ → ℕ) (E x y : ℕ) :
    Avoids exceedsBalance (writeCheckpoint ckpts u E x y) := by
  have hat (v : ℕ) : Avoids exceedsBalance (checkpointAt v x y E) := by
    unfold checkpointAt
    exact (avoids_uadd _ _ _).then fun _ => (avoids_usub _ _).then fun _ =>
      (avoids_ucast (by decide)).then fun _ => (avoids_ucast (by decide)).then fun _ => avoids_ok _
  unfold writeCheckpoint
  split
  · split_ifs
    · exact (hat _).then fun _ => avoids_ok _
    · exact (hat _).then fun _ => avoids_ok _
    · refine Avoids.then ?_ fun _ => (avoids_usub _ _).then fun _ =>
        (hat _).then fun _ => avoids_ok _
      exact avoids_loop (fun _ => (avoids_uadd _ _ _).then fun _ =>
        (avoids_usub _ _).then fun _ => avoids_ok _) _ _
  · exact (hat _).then fun _ => avoids_ok _

theorem lockVotes_avoids (v : Voting) (now : ℕ) (a : Address) (n T : ℕ) :
    Avoids exceedsBalance (lockVotes v now a n T) := by
  unfold lockVotes
  dsimp only
  split_ifs
  · refine (avoids_uadd _ _ _).then fun _ => ?_
    unfold _checkpointDelegate
    split_ifs
    refine Avoids.then ?_ fun _ => (writeCheckpoint_avoids _ _ _ _ _).then fun _ => avoids_ok _
    exact (avoids_uadd _ _ _).then fun _ => avoids_ok _
  · exact avoids_ok _

theorem lockStorage_avoids (s : Storage) (now : ℕ) (sender a : Address) (n : ℕ) :
    Avoids exceedsBalance (_lock s now sender a n) := by
  have hlist : Avoids exceedsBalance (notBlacklisted s.config sender a) := by
    unfold notBlacklisted
    refine (avoids_require (by decide)).then fun _ => ?_
    split_ifs
    · exact avoids_require (by decide)
    · exact avoids_ok _
  unfold _lock
  exact hlist.then fun _ => (avoids_require (by decide)).then fun _ =>
    (avoids_require (by decide)).then fun _ => (checkpointEpoch_avoids _ _).then fun _ =>
      (avoids_ucast (by decide)).then fun _ => (avoids_uadd _ _ _).then fun _ =>
        (lockLedger_avoids _ _ _ _ _).then fun _ => (lockVotes_avoids _ _ _ _ _).then fun _ =>
          avoids_ok _

/-- A caller that holds what it locks is not told that it is missing. -/
theorem lock_avoids (w : World) (sender a : Address) {n : ℕ}
    (hn : n ≤ (w.tokens w.locker.config.stakingToken).balanceOf sender) :
    Avoids exceedsBalance (lock w sender a n) := by
  unfold lock
  refine (updateReward_avoids _ _ _).bind fun s hs => ?_
  refine Avoids.then ?_ fun _ => (lockStorage_avoids _ _ _ _ _).then fun _ => avoids_ok _
  unfold World.safeTransferFrom
  refine Avoids.then (transferFrom_avoids _ _ _ _ ?_) fun _ => avoids_ok _
  dsimp only
  rw [(updateReward_accrued hs).config]
  exact hn

end Aura.Locker
