import Aura.Locker.Specs
import Mathlib.Logic.Relation

/-!
# AuraLocker : changes of the ledger and the votes

A call other than `delegate` changes the ledger, the votes and the configuration in a
sequence of at most three changes (`exec_changes`), and there are six kinds of them
(`Change`). An invariant of these three groups is checked once for each kind and then
holds of every reachable storage (`Reachable.induct_change`). Rewards and tokens do not
matter to them.
-/

open Evm Function Relation

namespace Aura.Locker

/-- One change of the ledger, the votes and the configuration at time `now`. -/
inductive Change (now : ℕ) (s s' : Storage) : Prop
  /-- Rewards, or settings that the ledger and the votes do not depend on. -/
  | other (ledger : s'.ledger = s.ledger) (voting : s'.voting = s.voting)
      (self : s'.config.self = s.config.self)
      (stakingToken : s'.config.stakingToken = s.config.stakingToken)
      (isShutdown : s.config.isShutdown = true → s'.config.isShutdown = true)
  | checkpoint (ledger : _checkpointEpoch s.ledger now = .ok s'.ledger)
      (voting : s'.voting = s.voting) (config : s'.config = s.config)
  | lock {a : Address} {n : ℕ} (done : LockDone s s' now a n)
  | expire {a : Address} {d : ℕ} {x : Expired} (done : ExpireDone s s' now a false d x)
  | relock {a : Address} {x : Expired} {s₁ : Storage} (expire : ExpireDone s s₁ now a true 0 x)
      (lock : LockDone s₁ s' now a (x.locked - x.reward))
  | emergencyWithdraw {u : Address} (shutdown : s.config.isShutdown = true)
      (le : (s.ledger.balances u).locked ≤ s.ledger.lockedSupply)
      (done : s' = { s with ledger := { s.ledger with
        lockedSupply := s.ledger.lockedSupply - (s.ledger.balances u).locked
        balances := update s.ledger.balances u ⟨0, (s.ledger.userLocks u).length⟩ } })

/-- A change of rewards only. -/
theorem Accrued.change {s s' : Storage} (h : Accrued s s') (now : ℕ) : Change now s s' :=
  .other h.ledger h.voting (by rw [h.config]) (by rw [h.config]) (by rw [h.config]; exact id)

/-- The ledger, the votes and the configuration are the same. -/
theorem Change.of_eq {now : ℕ} {s s' : Storage} (ledger : s'.ledger = s.ledger)
    (voting : s'.voting = s.voting) (config : s'.config = s.config) : Change now s s' :=
  .other ledger voting (by rw [config]) (by rw [config]) (by rw [config]; exact id)

variable {w w' : World} {sender : Address}

/-! ## The changes a call makes -/

/-- `_processExpiredLocks` accrues rewards, expires locks and perhaps locks again. -/
theorem processExpiredLocks_changes {a ra : Address} {relock : Bool} {d : ℕ}
    (hd : relock = true → d = 0) (h : _processExpiredLocks w sender a relock ra d = .ok w') :
    ReflTransGen (Change w.now) w.locker w'.locker ∧ w'.now = w.now := by
  obtain ⟨s₀, s₁, x, w₁, h₀, hx, -, hl, hn, -, h⟩ := processExpiredLocks_eq_ok h
  refine .imp (fun h => ((ReflTransGen.single ((updateReward_accrued h₀).change w.now)).tail h))
    id (?_ : Change w.now s₀ w'.locker ∧ w'.now = w.now)
  cases relock with
  | true =>
    obtain ⟨-, hn', hlock⟩ := h
    exact ⟨.relock (hd rfl ▸ hx) hlock, hn'⟩
  | false =>
    have hmv : w₁.Moved w' _ _ _ _ := h
    refine ⟨?_, hmv.now.trans hn⟩
    rw [hmv.locker, hl]
    exact .expire hx

/-- Paying rewards changes neither the ledger nor the votes nor the configuration. -/
theorem payReward_changes {w₁ w₂ : World} {a token : Address} {stake : Bool}
    (h : payReward w₁ sender a stake token = .ok w₂) :
    Change w₁.now w₁.locker w₂.locker ∧ w₂.now = w₁.now := by
  rcases payReward_eq_ok h with rfl | ⟨dst, hmv⟩
  · exact ⟨.of_eq rfl rfl rfl, rfl⟩
  · have hl := hmv.locker
    exact ⟨.of_eq (by rw [hl]; rfl) (by rw [hl]; rfl) (by rw [hl]; rfl), hmv.now⟩

/-- A call made of changes of rewards. -/
theorem pay_changes (w : World) (sender a : Address) {P : World → Prop}
    (hP : P = fun w₁ => ReflTransGen (Change w.now) w.locker w₁.locker ∧ w₁.now = w.now) :
    (∀ s, updateReward w.locker w.now a = .ok s → P { w with locker := s }) ∧
      ∀ (b : Bool) (w₁ w₂ : World) (token : Address), P w₁ →
        payReward w₁ sender a b token = .ok w₂ → P w₂ := by
  subst hP
  refine ⟨fun s hs => ⟨.single ((updateReward_accrued hs).change w.now), rfl⟩, ?_⟩
  rintro b w₁ w₂ token ⟨hch, hn⟩ hw
  obtain ⟨hc, hn'⟩ := payReward_changes hw
  exact ⟨hch.tail (hn ▸ hc), hn'.trans hn⟩

/-- Queueing rewards is a change of rewards. -/
theorem queueRewards_change {s s' : Storage} {now n : ℕ} {token : Address}
    (h : queueRewards s now token n = .ok s') : Change now s s' :=
  let ⟨hl, hv, hc, _⟩ := queueRewards_keeps h
  .of_eq hl hv hc

theorem Reconfigured.change {s s' : Storage} (h : Reconfigured s s') (now : ℕ) : Change now s s' :=
  .other h.ledger h.voting h.self h.stakingToken h.isShutdown

/-- The delegatee a call chooses. -/
def Call.delegatee : Call → Option Address
  | .delegate d => some d
  | _ => none

/-- A call other than `delegate` is a sequence of changes. -/
theorem exec_changes {c : Call} (hc : c.delegatee = none) (h : exec w sender c = .ok w') :
    ReflTransGen (Change w.now) w.locker w'.locker ∧ w'.now = w.now := by
  cases c with
  | lock a n =>
    obtain ⟨s₀, w₁, h₀, -, -, hn, hlock⟩ := lockCall_eq_ok h
    exact ⟨(ReflTransGen.single ((updateReward_accrued h₀).change _)).tail (.lock hlock), hn⟩
  | getReward a b =>
    obtain ⟨hacc, hpay⟩ := pay_changes w sender a rfl
    exact getReward_keeps hacc (fun w₁ w₂ token _ => hpay b w₁ w₂ token) h
  | getRewardSkip a l =>
    obtain ⟨hacc, hpay⟩ := pay_changes w sender a rfl
    exact getRewardSkip_keeps hacc (fun w₁ w₂ token _ => hpay false w₁ w₂ token) h
  | checkpointEpoch =>
    obtain ⟨l, hl, h⟩ := bind_eq_ok.1 (h : w.checkpointEpoch = .ok w')
    cases h
    exact ⟨.single (.checkpoint hl rfl rfl), rfl⟩
  | processExpiredLocks r => exact processExpiredLocks_changes (fun _ => rfl) h
  | kickExpiredLocks a =>
    obtain ⟨d, -, h⟩ := bind_eq_ok.1 (h : kickExpiredLocks w sender a = .ok w')
    exact processExpiredLocks_changes (by simp) h
  | emergencyWithdraw =>
    obtain ⟨hsd, -, hle, s₁, rfl, hmv⟩ := emergencyWithdraw_eq_ok h
    exact ⟨.single (.emergencyWithdraw hsd hle hmv.locker), hmv.now⟩
  | delegate d => cases hc
  | queueNewRewards t n =>
    obtain ⟨-, w₁, -, hq, -, hn⟩ := queueNewRewards_eq_ok h
    exact ⟨.single (queueRewards_change hq), hn⟩
  | addReward t d =>
    obtain ⟨s', hs, rfl⟩ := withLocker_eq_ok h
    obtain ⟨-, -, -, rfl⟩ := addReward_eq_ok hs
    exact ⟨.single (.of_eq rfl rfl rfl), rfl⟩
  | approveRewardDistributor t d b =>
    obtain ⟨s', hs, rfl⟩ := withLocker_eq_ok h
    obtain ⟨-, rfl⟩ := approveRewardDistributor_eq_ok hs
    exact ⟨.single (.of_eq rfl rfl rfl), rfl⟩
  | setKickIncentive _ _ | shutdown | modifyBlacklist _ _ | transferOwnership _ | setApprovals =>
    obtain ⟨hr, hn, -⟩ := exec_reconfigured rfl h
    exact ⟨.single (hr.change _), hn⟩
  | recoverERC20 t n =>
    obtain ⟨-, -, hmv⟩ := recoverERC20_eq_ok h
    exact ⟨.single (.of_eq (by rw [hmv.locker]) (by rw [hmv.locker]) (by rw [hmv.locker])), hmv.now⟩

/-! ## Invariants -/

/-- The storage that a deployment at `now` starts with. -/
def Deploys (now : ℕ) (s : Storage) : Prop :=
  0 < now ∧ ∃ self owner stakingToken cvxCrv cvxcrvStaking, self ≠ 0 ∧
    s = deploy now self owner stakingToken cvxCrv cvxcrvStaking

theorem Deployed.deploys (h : Deployed w) : Deploys w.now w.locker :=
  ⟨h.now_pos, _, _, _, _, _, h.self_ne, h.locker⟩

/-- A property of the log, the time and the storage that time, every change, every
delegation and the logging of other calls keep. -/
structure Inductive (P : List Event → ℕ → Storage → Prop) : Prop where
  time : ∀ {log now now' s}, P log now s → now ≤ now' → P log now' s
  change : ∀ {log now s s'}, P log now s → Change now s s' → P log now s'
  delegate : ∀ {log now s s' u D}, P log now s → delegate s now u D = .ok s' →
    P (log ++ [⟨now, u, .delegate D⟩]) now s'
  log : ∀ {log now s u c}, P log now s → c.delegatee = none → P (log ++ [⟨now, u, c⟩]) now s

/-- A call keeps an inductive property. -/
theorem Inductive.exec {P : List Event → ℕ → Storage → Prop} (hP : Inductive P) {log : List Event}
    {c : Call} (hw : P log w.now w.locker) (h : exec w sender c = .ok w') :
    P (log ++ [⟨w.now, sender, c⟩]) w'.now w'.locker := by
  cases hc : c.delegatee with
  | none =>
    obtain ⟨hch, hn⟩ := exec_changes hc h
    rw [hn]
    refine hP.log ?_ hc
    generalize w'.locker = s' at hch ⊢
    induction hch with
    | refl => exact hw
    | tail _ hstep ih => exact hP.change ih hstep
  | some d =>
    cases c with
    | delegate D =>
      obtain ⟨s', hs, rfl⟩ := withLocker_eq_ok h
      exact hP.delegate hw hs
    | _ => cases hc

/-- A run keeps an inductive property. -/
theorem Inductive.steps {P : List Event → ℕ → Storage → Prop} (hP : Inductive P)
    (log₀ : List Event) {log : List Event} (h₀ : P log₀ w.now w.locker) (hs : Steps w log w') :
    P (log₀ ++ log) w'.now w'.locker := by
  induction hs with
  | refl => rwa [List.append_nil]
  | elsewhere _ he ih =>
    rw [he.locker]
    exact hP.time ih he.now
  | call _ _ hx ih =>
    rw [← List.append_assoc]
    exact hP.exec ih hx

/-- Time does not go back. -/
theorem Steps.now_le {log : List Event} (hs : Steps w log w') : w.now ≤ w'.now := by
  have hP : Inductive fun _ now _ => w.now ≤ now :=
    ⟨fun h hn => h.trans hn, fun h _ => h, fun h _ => h, fun h _ => h⟩
  exact hP.steps [] le_rfl hs

/-- The address of the locker is fixed. -/
theorem Steps.self_eq {log : List Event} (h : Steps w log w') :
    w'.locker.config.self = w.locker.config.self := by
  have hP : Inductive fun _ _ s => s.config.self = w.locker.config.self :=
    { time := fun h _ => h
      change := by
        intro _ _ s s' h hch
        cases hch with
        | other _ _ hself => rwa [hself]
        | checkpoint _ _ hc => rwa [hc]
        | lock hl => rwa [hl.config]
        | expire hx => rwa [hx.config]
        | relock hx hl => rwa [hl.config, hx.config]
        | emergencyWithdraw _ _ hs => rwa [hs]
      delegate := by
        intro _ _ s s' _ _ h hd
        obtain ⟨-, -, -, _, _, -, -, -, hs⟩ := delegate_eq_ok hd
        rwa [hs]
      log := fun h _ => h }
  exact hP.steps [] rfl h

/-- An inductive property that every deployment has holds of every reachable world. -/
theorem Inductive.reachable {P : List Event → ℕ → Storage → Prop} (hP : Inductive P)
    (h₀ : ∀ now s, Deploys now s → P [] now s) {log : List Event} {w : World}
    (h : Reachable log w) : P log w.now w.locker := by
  obtain ⟨w₀, hw₀, hs⟩ := h
  exact hP.steps [] (h₀ _ _ hw₀.deploys) hs

end Aura.Locker
