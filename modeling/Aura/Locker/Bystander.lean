import Aura.Locker.History

/-!
# AuraLocker : seen from another contract

A contract that reads the locker relies on little : the locker and its callers move no
tokens of its own, and no epoch is ever dropped.
-/

open Evm Function

namespace Aura.Locker

variable {w w' : World} {sender : Address}

/-! ## Balances -/

theorem World.balance_congr (h : w'.tokens = w.tokens) (k : Address) :
    w'.balance k = w.balance k := by
  unfold World.balance
  rw [h]

/-- Only the source of a movement can lose. -/
theorem World.Moved.balance_le {token src dst a : Address} {n : ℕ}
    (h : w.Moved w' token src dst n) (ha : a ≠ src) (k : Address) :
    w.balance k a ≤ w'.balance k a := by
  rw [h.balance]
  split_ifs with hk
  · subst hk
    by_cases hd : a = dst
    · subst hd
      rw [move_dst _ _ ha.symm]
      exact Nat.le_add_right _ _
    · rw [move_of_ne _ _ ha hd]
  · exact le_rfl

theorem processExpiredLocks_balance_le {a u ra : Address} {relock : Bool} {d : ℕ}
    (ha : a ≠ w.locker.config.self) (h : _processExpiredLocks w sender u relock ra d = .ok w')
    (k : Address) : w.balance k a ≤ w'.balance k a := by
  obtain ⟨s₀, s₁, x, w₁, h₀, hx, -, -, -, hpaid, h⟩ := processExpiredLocks_eq_ok h
  have hself : a ≠ s₁.config.self := by
    rwa [hx.config, (updateReward_accrued h₀).config]
  have h₁ : w.balance k a ≤ w₁.balance k a := by
    split_ifs at hpaid
    · exact hpaid.balance_le hself k
    · rw [hpaid]
      exact le_rfl
  cases relock with
  | true =>
    obtain ⟨ht, -, -⟩ := h
    rw [World.balance_congr ht]
    exact h₁
  | false =>
    have hmv : w₁.Moved w' _ _ _ _ := h
    exact h₁.trans (hmv.balance_le hself k)

/-- No call lowers a balance of an account other than its sender and the locker. -/
theorem exec_balance_le {a : Address} {c : Call} (hs : a ≠ sender)
    (ha : a ≠ w.locker.config.self) (h : exec w sender c = .ok w') (k : Address) :
    w.balance k a ≤ w'.balance k a := by
  let P (w₁ : World) : Prop :=
    w₁.locker.config = w.locker.config ∧ w.balance k a ≤ w₁.balance k a
  have hacc : ∀ (u : Address) (s : Storage), updateReward w.locker w.now u = .ok s →
      P { w with locker := s } := fun u s hs => ⟨(updateReward_accrued hs).config, le_rfl⟩
  have hpay : ∀ (u : Address) (b : Bool) (w₁ w₂ : World) (token : Address), P w₁ →
      payReward w₁ sender u b token = .ok w₂ → P w₂ := by
    rintro u b w₁ w₂ token ⟨hc, hle⟩ hp
    rcases payReward_eq_ok hp with rfl | ⟨dst, hmv⟩
    · exact ⟨hc, hle⟩
    · refine ⟨?_, hle.trans (hmv.balance_le (hc ▸ ha) k)⟩
      rw [hmv.locker]
      exact hc
  cases c with
  | lock u n =>
    obtain ⟨s₀, w₁, -, hmv, ht, -, -⟩ := lockCall_eq_ok h
    rw [World.balance_congr ht]
    exact hmv.balance_le hs k
  | getReward u b => exact (getReward_keeps (hacc u) (fun w₁ w₂ t _ => hpay u b w₁ w₂ t) h).2
  | getRewardSkip u l =>
    exact (getRewardSkip_keeps (hacc u) (fun w₁ w₂ t _ => hpay u false w₁ w₂ t) h).2
  | checkpointEpoch =>
    obtain ⟨l, -, h⟩ := bind_eq_ok.1 (h : w.checkpointEpoch = .ok w')
    cases h
    exact le_rfl
  | processExpiredLocks r => exact processExpiredLocks_balance_le ha h k
  | kickExpiredLocks u =>
    obtain ⟨d, -, h⟩ := bind_eq_ok.1 (h : kickExpiredLocks w sender u = .ok w')
    exact processExpiredLocks_balance_le ha h k
  | emergencyWithdraw =>
    obtain ⟨-, -, -, s₁, rfl, hmv⟩ := emergencyWithdraw_eq_ok h
    exact hmv.balance_le ha k
  | queueNewRewards t n =>
    obtain ⟨-, w₁, hmv, -, ht, -⟩ := queueNewRewards_eq_ok h
    rw [World.balance_congr ht]
    exact hmv.balance_le hs k
  | recoverERC20 t n =>
    obtain ⟨-, -, hmv⟩ := recoverERC20_eq_ok h
    exact hmv.balance_le ha k
  | setKickIncentive _ _ | shutdown | modifyBlacklist _ _ | transferOwnership _ | setApprovals =>
    obtain ⟨-, -, hb⟩ := exec_reconfigured rfl h
    rw [hb]
  | _ =>
    obtain ⟨s', -, rfl⟩ := withLocker_eq_ok h
    exact le_rfl

/-! ## The epochs -/

/-- `_checkpointEpoch` drops no epoch. -/
theorem checkpointEpoch_length_le {l l' : Ledger} {now : ℕ}
    (h : _checkpointEpoch l now = .ok l') : l.epochs.length ≤ l'.epochs.length := by
  unfold _checkpointEpoch at h
  obtain ⟨e, -, h⟩ := bind_eq_ok.1 h
  split_ifs at h
  · obtain ⟨r, hr, h⟩ := bind_eq_ok.1 h
    cases h
    have hbody : ∀ r r' : ℕ × List Epoch, l.epochs.length ≤ r.2.length →
        decide (r.1 ≠ epochOf now) →
        (do
          let nextEpochDate ← AuraMath.add r.1 rewardsDuration
          .ok (nextEpochDate, r.2 ++ [⟨0, trunc 32 nextEpochDate⟩])) = Except.ok r' →
        l.epochs.length ≤ r'.2.length := by
      intro r r' hI _ hb
      obtain ⟨d, -, hb⟩ := bind_eq_ok.1 hb
      cases hb
      rw [List.length_append]
      exact hI.trans (Nat.le_add_right _ _)
    have hI := loop_partial (fun r : ℕ × List Epoch => l.epochs.length ≤ r.2.length) hbody _ _ _
      le_rfl hr
    exact hI.1
  · cases h
    exact le_rfl

theorem LockDone.length_le {s s' : Storage} {now n : ℕ} {a : Address}
    (h : LockDone s s' now a n) : s.ledger.epochs.length ≤ s'.ledger.epochs.length := by
  obtain ⟨l, hck, hlk⟩ := h.ledger
  obtain ⟨_, e, -, he, -, -, hs'⟩ := lockLedger_eq_ok hlk
  have hne : 0 < l.epochs.length := List.length_pos_of_mem (List.mem_of_getLast? he)
  rw [hs', List.length_append, List.length_dropLast, List.length_singleton,
    Nat.sub_add_cancel hne]
  exact checkpointEpoch_length_le hck

/-- No epoch is ever dropped. -/
theorem Steps.length_le {log : List Event} (h : Steps w log w') :
    w.locker.ledger.epochs.length ≤ w'.locker.ledger.epochs.length := by
  have hP : Inductive fun _ _ s => w.locker.ledger.epochs.length ≤ s.ledger.epochs.length :=
    { time := fun h _ => h
      change := by
        intro _ _ s s' h hch
        refine h.trans ?_
        cases hch with
        | other hl => rw [hl]
        | checkpoint hl => exact checkpointEpoch_length_le hl
        | lock hl => exact hl.length_le
        | expire hx => rw [hx.ledger]
        | relock hx hl =>
          refine le_trans ?_ hl.length_le
          rw [hx.ledger]
        | emergencyWithdraw _ _ hs => rw [hs]
      delegate := by
        intro _ _ s s' _ _ h hd
        obtain ⟨-, -, -, _, _, -, -, -, hs⟩ := delegate_eq_ok hd
        rwa [hs]
      log := fun h _ => h }
  exact hP.steps [] le_rfl h

/-- A locker always has an epoch. -/
theorem Reachable.epochs_ne_nil {log : List Event} (h : Reachable log w) :
    w.locker.ledger.epochs ≠ [] := by
  obtain ⟨w₀, h₀, hs⟩ := h
  have hlen := hs.length_le
  rw [h₀.locker] at hlen
  exact List.ne_nil_of_length_pos (Nat.lt_of_lt_of_le Nat.zero_lt_one hlen)

end Aura.Locker
