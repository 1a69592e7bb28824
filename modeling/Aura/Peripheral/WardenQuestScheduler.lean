import Aura.AuraMath
import Aura.Evm.Others
import Aura.Evm.Run
import Aura.FiniteSum

/-!
# WardenQuestScheduler

Rewards that a quest board did not distribute come back to the scheduler, which queues them
for two epochs and forwards them to the stash of the pool, epoch by epoch. The board is a
third party : what it does with the token is part of the call that enters it
(`Erc20.Outside`), with the id of the quest that it created. It does not call the scheduler
back : `createQuest` is open to everybody and has no guard, and a quest that the board created
while the scheduler counts what comes back would be queued and approved at once.

Of what the scheduler holds, some is queued and some the board may still pull, for quests
that were created. Both are always covered, so what is queued can be forwarded to the stash as
soon as its epoch has begun (`scheduler_solvent`), and all that was ever queued has come in and
is still queued, was forwarded or was cancelled (`queue_accounted`).

The comment of `_queueRewards` says that it reverts if an epoch already has queued rewards.
It adds to them.
-/

open Evm Function FiniteSum

namespace Aura.Peripheral.Warden

/-- `IBooster.PoolInfo`, as far as the scheduler reads it. -/
structure PoolInfo where
  gauge : Address
  stash : Address
  shutdown : Bool
  deriving DecidableEq

/-- The events. -/
inductive QuestEvent where
  | QueuedRewards (epoch pid rewardAmount : ℕ)
  | ForwardedRewards (epoch pid rewardAmount : ℕ)
  | CanceledRewards (epoch pid rewardAmount : ℕ)
  deriving DecidableEq

structure WardenQuestScheduler where
  owner : Address
  authorizedKeepers : Address → Bool
  darkQuestBoard : Address
  /-- questId => pid. -/
  quests : ℕ → ℕ
  /-- epoch => pid => amount. -/
  rewardsQueue : ℕ → ℕ → ℕ
  /-- The events emitted so far. -/
  events : List QuestEvent

namespace WardenQuestScheduler

def epochDuration : ℕ := 7 * 86400

def duration : ℕ := 2

def _getCurrentEpoch (now : ℕ) : ℕ :=
  now / epochDuration

/-- `rewardsQueue[_epoch][_pid] = n`. -/
def setQueue (s : WardenQuestScheduler) (_epoch _pid n : ℕ) : WardenQuestScheduler :=
  { s with rewardsQueue := update s.rewardsQueue _epoch (update (s.rewardsQueue _epoch) _pid n) }

def emit (s : WardenQuestScheduler) (e : QuestEvent) : WardenQuestScheduler :=
  { s with events := s.events ++ [e] }

/-- A round of the loop of `_queueRewards`. -/
def queueRound (_pid rewardAmount epoch : ℕ) (s : WardenQuestScheduler) :
    Tx WardenQuestScheduler := do
  let n ← uadd 256 (s.rewardsQueue epoch _pid) rewardAmount
  .ok ((s.setQueue epoch _pid n).emit (.QueuedRewards epoch _pid rewardAmount))

/-- The loop of `_queueRewards`. -/
def queueLoop (_pid rewardAmount : ℕ) : ℕ → ℕ → WardenQuestScheduler → Tx WardenQuestScheduler
  | 0, _, s => .ok s
  | n + 1, epoch, s => do
    let s ← queueRound _pid rewardAmount epoch s
    queueLoop _pid rewardAmount n (epoch + 1) s

def _queueRewards (s : WardenQuestScheduler) (now _pid _nEpochs _amount : ℕ) :
    Tx WardenQuestScheduler := do
  let rewardAmount ← udiv _amount _nEpochs
  queueLoop _pid rewardAmount _nEpochs (_getCurrentEpoch now) s

end WardenQuestScheduler

open WardenQuestScheduler

structure World where
  /-- `block.timestamp`. -/
  now : ℕ
  /-- `IBooster(booster).poolInfo`. -/
  poolInfo : ℕ → PoolInfo
  cvx : Erc20 Address
  scheduler : WardenQuestScheduler

-- `address(this)`
variable (here : Address)

/-- `createQuest`, with what the board does and the id it returns. -/
def createQuest (w : World) (sender : Address) (pid totalRewardAmount feeAmount : ℕ)
    (board : Erc20.Outside here) (questID : ℕ) : Tx World := do
  let poolInfo := w.poolInfo pid
  require (poolInfo.shutdown = false) "!shutdown"
  require (poolInfo.stash ≠ 0) "!stash"
  let totalAmount ← uadd 256 totalRewardAmount feeAmount
  let cvx ← w.cvx.transferFrom here sender here totalAmount
  let cvx ← cvx.safeIncreaseAllowance here w.scheduler.darkQuestBoard totalAmount
  let cvx ← board.run cvx
  let quests := update w.scheduler.quests questID pid
  .ok { w with cvx, scheduler := { w.scheduler with quests } }

/-- `withdrawAndQueueUnusedRewards`, with the `periodStart` of the quest on the board and what
the board does in `withdrawUnusedRewards`. -/
def withdrawAndQueueUnusedRewards (w : World) (sender : Address) (questID periodStart : ℕ)
    (board : Erc20.Outside here) : Tx World := do
  require (w.scheduler.authorizedKeepers sender = true) "!keeper"
  let pid := w.scheduler.quests questID
  require ((w.poolInfo pid).stash ≠ 0) "!questID"
  let periodFinish ← uadd 256 periodStart (epochDuration * duration)
  require (periodFinish < w.now) "!periodFinish"
  let balanceBefore := w.cvx.balanceOf here
  let cvx ← board.run w.cvx
  let balanceAfter := cvx.balanceOf here
  let amount ← usub balanceAfter balanceBefore
  require (0 < amount) "!amount"
  let scheduler ← w.scheduler._queueRewards w.now pid duration amount
  .ok { w with cvx, scheduler }

/-- `emergencyWithdraw`, with what the board does. -/
def emergencyWithdraw (w : World) (sender : Address) (board : Erc20.Outside here) : Tx World := do
  require (w.scheduler.owner = sender) "Ownable: caller is not the owner"
  let cvx ← board.run w.cvx
  .ok { w with cvx }

def _forwardRewards (w : World) (_epoch _pid : ℕ) : Tx World := do
  require (_epoch ≤ _getCurrentEpoch w.now) "!epoch"
  let amount := w.scheduler.rewardsQueue _epoch _pid
  require (0 < amount) "!amount"
  let scheduler := w.scheduler.setQueue _epoch _pid 0
  let poolInfo := w.poolInfo _pid
  require (poolInfo.shutdown = false) "!shutdown"
  let cvx ← w.cvx.transfer here poolInfo.stash amount
  .ok { w with cvx, scheduler := scheduler.emit (.ForwardedRewards _epoch _pid amount) }

def forwardRewards (w : World) (sender : Address) (_pid : ℕ) : Tx World := do
  require (w.scheduler.authorizedKeepers sender = true) "!keeper"
  _forwardRewards here w (_getCurrentEpoch w.now) _pid

def forwardQueuedRewards (w : World) (sender : Address) (_epoch _pid : ℕ) : Tx World := do
  require (w.scheduler.authorizedKeepers sender = true) "!keeper"
  _forwardRewards here w _epoch _pid

def cancelQueuedRewards (w : World) (sender : Address) (_epoch _pid : ℕ) : Tx World := do
  require (w.scheduler.owner = sender) "Ownable: caller is not the owner"
  let amount := w.scheduler.rewardsQueue _epoch _pid
  require (0 < amount) "!amount"
  let scheduler := w.scheduler.setQueue _epoch _pid 0
  let cvx ← w.cvx.transfer here w.scheduler.owner amount
  .ok { w with cvx, scheduler := scheduler.emit (.CanceledRewards _epoch _pid amount) }

/-- `updateAuthorizedKeepers` of `KeeperRole`. -/
def updateAuthorizedKeepers (w : World) (sender _keeper : Address) (_authorized : Bool) :
    Tx World := do
  require (w.scheduler.owner = sender) "Ownable: caller is not the owner"
  let authorizedKeepers := update w.scheduler.authorizedKeepers _keeper _authorized
  .ok { w with scheduler := { w.scheduler with authorizedKeepers } }

/-- `transferOwnership` of `Ownable`. -/
def transferOwnership (w : World) (sender newOwner : Address) : Tx World := do
  require (w.scheduler.owner = sender) "Ownable: caller is not the owner"
  require (newOwner ≠ 0) "Ownable: new owner is the zero address"
  .ok { w with scheduler := { w.scheduler with owner := newOwner } }

/-- `renounceOwnership` of `Ownable`. -/
def renounceOwnership (w : World) (sender : Address) : Tx World := do
  require (w.scheduler.owner = sender) "Ownable: caller is not the owner"
  .ok { w with scheduler := { w.scheduler with owner := 0 } }

/-! ## Runs -/

/-- The functions of the scheduler, other than `execute`. -/
inductive Call where
  | createQuest (pid totalRewardAmount feeAmount : ℕ) (board : Erc20.Outside here) (questID : ℕ)
  | withdrawAndQueueUnusedRewards (questID periodStart : ℕ) (board : Erc20.Outside here)
  | emergencyWithdraw (board : Erc20.Outside here)
  | forwardRewards (_pid : ℕ)
  | forwardQueuedRewards (_epoch _pid : ℕ)
  | cancelQueuedRewards (_epoch _pid : ℕ)
  | updateAuthorizedKeepers (_keeper : Address) (_authorized : Bool)
  | transferOwnership (newOwner : Address)
  | renounceOwnership
  deriving DecidableEq

variable {here}

/-- Run a call of `sender`. -/
def exec (w : World) (sender : Address) : Call here → Tx World
  | .createQuest pid total fee board questID =>
    createQuest here w sender pid total fee board questID
  | .withdrawAndQueueUnusedRewards questID periodStart board =>
    withdrawAndQueueUnusedRewards here w sender questID periodStart board
  | .emergencyWithdraw board => emergencyWithdraw here w sender board
  | .forwardRewards pid => forwardRewards here w sender pid
  | .forwardQueuedRewards epoch pid => forwardQueuedRewards here w sender epoch pid
  | .cancelQueuedRewards epoch pid => cancelQueuedRewards here w sender epoch pid
  | .updateAuthorizedKeepers keeper authorized => updateAuthorizedKeepers w sender keeper authorized
  | .transferOwnership newOwner => transferOwnership w sender newOwner
  | .renounceOwnership => renounceOwnership w sender

variable (here) in
/-- Time passes, the booster changes its pools, and others use the token. -/
structure Elsewhere (w w' : World) : Prop where
  now : w.now ≤ w'.now
  scheduler : w'.scheduler = w.scheduler
  cvx : Erc20.Spends here w.cvx w'.cvx

variable (here) in
/-- The scheduler was just deployed, and has approved nobody. -/
structure Deployed (w : World) : Prop where
  self_ne : here ≠ 0
  rewardsQueue : w.scheduler.rewardsQueue = fun _ _ => 0
  events : w.scheduler.events = []
  approved : w.cvx.approved here = 0

variable (here) in
/-- The scheduler and its surroundings. -/
def system : System World Address (Call here) where
  now := World.now
  IsCaller _ a := a ≠ 0 ∧ a ≠ here
  exec := exec
  Elsewhere := Elsewhere here
  Deployed := Deployed here

instance (w : World) (a : Address) : Decidable ((system here).IsCaller w a) :=
  inferInstanceAs (Decidable (a ≠ 0 ∧ a ≠ here))

/-! ## The ledger of the queue -/

/-- The queue as one mapping. -/
def queue (s : WardenQuestScheduler) (x : ℕ × ℕ) : ℕ :=
  s.rewardsQueue x.1 x.2

/-- What an event queues for an epoch of a pool. -/
def queuedBy (epoch pid : ℕ) : QuestEvent → ℕ
  | .QueuedRewards e p n => if e = epoch ∧ p = pid then n else 0
  | _ => 0

/-- What an event forwards. -/
def forwardedBy (epoch pid : ℕ) : QuestEvent → ℕ
  | .ForwardedRewards e p n => if e = epoch ∧ p = pid then n else 0
  | _ => 0

/-- What an event cancels. -/
def canceledBy (epoch pid : ℕ) : QuestEvent → ℕ
  | .CanceledRewards e p n => if e = epoch ∧ p = pid then n else 0
  | _ => 0

/-- The sum over the events. -/
def sumOf (f : QuestEvent → ℕ) (s : WardenQuestScheduler) : ℕ :=
  (s.events.map f).sum

/-- All that was queued is accounted for. -/
structure Accounted (s : WardenQuestScheduler) (now : ℕ) : Prop where
  finite : (support (queue s)).Finite
  account : ∀ epoch pid, sumOf (queuedBy epoch pid) s =
    s.rewardsQueue epoch pid + sumOf (forwardedBy epoch pid) s + sumOf (canceledBy epoch pid) s
  /-- Nothing is forwarded before its epoch. -/
  forwarded : ∀ epoch pid n, .ForwardedRewards epoch pid n ∈ s.events →
    epoch ≤ _getCurrentEpoch now
  /-- Nothing is queued beyond the next epoch. -/
  queued : ∀ epoch pid n, .QueuedRewards epoch pid n ∈ s.events →
    epoch < _getCurrentEpoch now + duration

variable {s s' : WardenQuestScheduler} {now epoch pid n : ℕ} {w w' : World} {sender : Address}

theorem queue_setQueue :
    queue (s.setQueue epoch pid n) = update (queue s) (epoch, pid) n := by
  ext x
  obtain ⟨e, p⟩ := x
  unfold queue setQueue
  by_cases he : e = epoch
  · subst he
    by_cases hp : p = pid
    · subst hp
      simp
    · have hne : (e, p) ≠ (e, pid) := fun h => hp (Prod.mk.inj h).2
      simp [hp, hne]
  · have hne : (e, p) ≠ (epoch, pid) := fun h => he (Prod.mk.inj h).1
    simp [he, hne]

/-- The queue changes at one place, and an event is emitted. -/
theorem sumOf_emit_setQueue (f : QuestEvent → ℕ) (e : QuestEvent) :
    sumOf f ((s.setQueue epoch pid n).emit e) = sumOf f s + f e := by
  show ((s.events ++ [e]).map f).sum = (s.events.map f).sum + f e
  simp

theorem mem_events_emit {d e : QuestEvent} (h : d ∈ ((s.setQueue epoch pid n).emit e).events) :
    d ∈ s.events ∨ d = e :=
  (List.mem_append.1 h).imp_right List.mem_singleton.1

theorem queue_emit_setQueue (e : QuestEvent) :
    queue ((s.setQueue epoch pid n).emit e) = update (queue s) (epoch, pid) n :=
  queue_setQueue

theorem rewardsQueue_setQueue (e p : ℕ) : (s.setQueue epoch pid n).rewardsQueue e p =
    if epoch = e ∧ pid = p then n else s.rewardsQueue e p := by
  have h : queue (s.setQueue epoch pid n) (e, p) = update (queue s) (epoch, pid) n (e, p) :=
    congrFun queue_setQueue (e, p)
  unfold queue at h
  dsimp only at h
  rw [h, update_apply]
  simp [Prod.mk.injEq, eq_comm]

/-- Time passes. -/
theorem Accounted.mono {now' : ℕ} (h : Accounted s now) (hn : now ≤ now') : Accounted s now' := by
  have hle : _getCurrentEpoch now ≤ _getCurrentEpoch now' := Nat.div_le_div_right hn
  exact ⟨h.finite, h.account, fun e p n hm => (h.forwarded e p n hm).trans hle,
    fun e p n hm => (h.queued e p n hm).trans_le (Nat.add_le_add_right hle _)⟩

/-- A round queues the amount. -/
theorem Accounted.round {rewardAmount : ℕ} (h : Accounted s now)
    (he : epoch < _getCurrentEpoch now + duration)
    (hx : queueRound pid rewardAmount epoch s = .ok s') :
    Accounted s' now ∧ total (queue s') = total (queue s) + rewardAmount := by
  obtain ⟨n, hn, hx⟩ := bind_eq_ok.1 hx
  obtain ⟨-, rfl⟩ := uadd_eq_ok.1 hn
  cases hx
  refine ⟨⟨?_, fun e p => ?_, fun e p n hm => ?_, fun e p n hm => ?_⟩, ?_⟩
  · rw [queue_emit_setQueue]
    exact support_update_finite h.finite _ _
  · have hacc := h.account e p
    simp only [sumOf_emit_setQueue, queuedBy, forwardedBy, canceledBy]
    show _ = (s.setQueue epoch pid _).rewardsQueue e p + _ + _
    rw [rewardsQueue_setQueue]
    split_ifs with hep
    · obtain ⟨rfl, rfl⟩ := hep
      omega
    · omega
  · exact h.forwarded e p n ((mem_events_emit hm).resolve_right nofun)
  · rcases mem_events_emit hm with hm | ⟨rfl, rfl, rfl⟩
    · exact h.queued e p n hm
    · exact he
  · have hsum := total_update_add h.finite (epoch, pid) (s.rewardsQueue epoch pid + rewardAmount)
    have hval : queue s (epoch, pid) = s.rewardsQueue epoch pid := rfl
    rw [queue_emit_setQueue]
    omega

/-- The loop queues it for each of its epochs. -/
theorem Accounted.loop {rewardAmount k : ℕ} (h : Accounted s now)
    (he : epoch + k ≤ _getCurrentEpoch now + duration)
    (hx : queueLoop pid rewardAmount k epoch s = .ok s') :
    Accounted s' now ∧ total (queue s') = total (queue s) + k * rewardAmount := by
  induction k generalizing epoch s with
  | zero =>
    cases hx
    exact ⟨h, by simp⟩
  | succ k ih =>
    obtain ⟨s₁, h₁, hx⟩ := bind_eq_ok.1 hx
    obtain ⟨hone, htotal⟩ := h.round (by omega) h₁
    obtain ⟨hrest, hall⟩ := ih hone (by omega) hx
    refine ⟨hrest, ?_⟩
    rw [hall, htotal]
    ring

/-- Taking an amount out of the queue, with the event that says where it went. -/
theorem Accounted.take {e : QuestEvent} (h : Accounted s now)
    (hq : ∀ e' p, queuedBy e' p e = 0)
    (he : ∀ e' p, forwardedBy e' p e + canceledBy e' p e =
      if epoch = e' ∧ pid = p then s.rewardsQueue epoch pid else 0)
    (hf : ∀ e' p n, e = .ForwardedRewards e' p n → e' ≤ _getCurrentEpoch now)
    (hn : ∀ e' p n, e ≠ .QueuedRewards e' p n) :
    Accounted ((s.setQueue epoch pid 0).emit e) now ∧
      total (queue ((s.setQueue epoch pid 0).emit e)) + s.rewardsQueue epoch pid =
        total (queue s) := by
  refine ⟨⟨?_, fun e' p => ?_, fun e' p n hm => ?_, fun e' p n hm => ?_⟩, ?_⟩
  · rw [queue_emit_setQueue]
    exact support_update_finite h.finite _ _
  · have hacc := h.account e' p
    have hsplit := he e' p
    simp only [sumOf_emit_setQueue, hq]
    show _ = (s.setQueue epoch pid 0).rewardsQueue e' p + _ + _
    rw [rewardsQueue_setQueue]
    split_ifs at hsplit ⊢ with hep
    · obtain ⟨rfl, rfl⟩ := hep
      omega
    · omega
  · rcases mem_events_emit hm with hm | hm
    · exact h.forwarded e' p n hm
    · exact hf e' p n hm.symm
  · rcases mem_events_emit hm with hm | hm
    · exact h.queued e' p n hm
    · exact absurd hm.symm (hn e' p n)
  · have hsum := total_update_add h.finite (epoch, pid) 0
    have hval : queue s (epoch, pid) = s.rewardsQueue epoch pid := rfl
    rw [queue_emit_setQueue]
    omega

/-! ## Solvency -/

variable {log : List (Event Address (Call here))}

variable (here) in
/-- What is queued and what is approved is covered. -/
structure Solvent (w : World) : Prop where
  self_ne : here ≠ 0
  accounted : Accounted w.scheduler w.now
  covered : total (queue w.scheduler) + w.cvx.approved here ≤ w.cvx.balanceOf here

theorem Solvent.deployed (h : Deployed here w) : Solvent here w := by
  have hzero : queue w.scheduler = fun _ => 0 := by
    unfold queue
    rw [h.rewardsQueue]
  have hnone : ∀ f, sumOf f w.scheduler = 0 := fun f => by simp [sumOf, h.events]
  refine ⟨h.self_ne, ⟨?_, fun e p => ?_, fun e p n hm => ?_, fun e p n hm => ?_⟩, ?_⟩
  · rw [hzero]
    simp
  · rw [hnone, hnone, hnone, h.rewardsQueue]
  · simp [h.events] at hm
  · simp [h.events] at hm
  · rw [hzero, total_zero, h.approved]
    exact Nat.zero_le _

/-- While others act, what is not approved is not lost. -/
theorem Solvent.elsewhere (h : Solvent here w) (he : Elsewhere here w w') : Solvent here w' := by
  have hspent := he.cvx.balanceOf
  have hcov := h.covered
  refine ⟨h.self_ne, ?_, ?_⟩
  · rw [he.scheduler]
    exact h.accounted.mono he.now
  · rw [he.scheduler]
    omega

/-- What is pulled for a quest is approved to the board. -/
theorem Solvent.createQuest {total fee questID : ℕ} {board : Erc20.Outside here}
    (h : Solvent here w) (hs : sender ≠ here)
    (hx : createQuest here w sender pid total fee board questID = .ok w') : Solvent here w' := by
  obtain ⟨-, hx⟩ := require_bind_eq_ok.1 hx
  obtain ⟨-, hx⟩ := require_bind_eq_ok.1 hx
  obtain ⟨n, -, hx⟩ := bind_eq_ok.1 hx
  obtain ⟨t₁, h₁, hx⟩ := bind_eq_ok.1 hx
  obtain ⟨t₂, h₂, hx⟩ := bind_eq_ok.1 hx
  obtain ⟨t₃, h₃, hx⟩ := bind_eq_ok.1 hx
  cases hx
  refine ⟨h.self_ne, ⟨h.accounted.finite, h.accounted.account, h.accounted.forwarded,
    h.accounted.queued⟩, ?_⟩
  have hcov := h.covered
  have hpull : t₁.balanceOf here = w.cvx.balanceOf here + n := by
    rw [(Erc20.transferFrom_eq_ok h₁).2.2.1, move_dst _ _ hs]
  have hsame := Erc20.approved_transferFrom hs h₁
  obtain ⟨hbal, happ⟩ := Erc20.safeIncreaseAllowance_eq_ok h₂
  have hspent := (Erc20.Outside.spends h₃).balanceOf
  show FiniteSum.total (queue w.scheduler) + t₃.approved here ≤ t₃.balanceOf here
  rw [hbal] at hspent
  omega

/-- No more is queued than came in. -/
theorem Solvent.withdraw {questID periodStart : ℕ} {board : Erc20.Outside here}
    (h : Solvent here w)
    (hx : withdrawAndQueueUnusedRewards here w sender questID periodStart board = .ok w') :
    Solvent here w' := by
  obtain ⟨-, hx⟩ := require_bind_eq_ok.1 hx
  obtain ⟨-, hx⟩ := require_bind_eq_ok.1 hx
  obtain ⟨finish, -, hx⟩ := bind_eq_ok.1 hx
  obtain ⟨-, hx⟩ := require_bind_eq_ok.1 hx
  obtain ⟨t, ht, hx⟩ := bind_eq_ok.1 hx
  obtain ⟨amount, ha, hx⟩ := bind_eq_ok.1 hx
  obtain ⟨-, hx⟩ := require_bind_eq_ok.1 hx
  obtain ⟨s, hs, hx⟩ := bind_eq_ok.1 hx
  cases hx
  obtain ⟨hle, rfl⟩ := usub_eq_ok.1 ha
  obtain ⟨rewardAmount, hr, hs⟩ := bind_eq_ok.1 hs
  obtain ⟨-, rfl⟩ := udiv_eq_ok.1 hr
  obtain ⟨hacc, htotal⟩ := h.accounted.loop le_rfl hs
  refine ⟨h.self_ne, hacc, ?_⟩
  have hcov := h.covered
  have hspent := (Erc20.Outside.spends ht).balanceOf
  have hless : t.approved here ≤ w.cvx.approved here :=
    Finset.sum_le_sum fun b _ => (Erc20.Outside.spends ht).allowance b
  have hdiv := Nat.mul_div_le (t.balanceOf here - w.cvx.balanceOf here) duration
  show total (queue s) + t.approved here ≤ t.balanceOf here
  omega

/-- What leaves the queue is paid at most once. -/
theorem Solvent.pay {dst : Address} {t : Erc20 Address} {e : QuestEvent} (h : Solvent here w)
    (ht : w.cvx.transfer here dst (w.scheduler.rewardsQueue epoch pid) = .ok t)
    (htake : Accounted ((w.scheduler.setQueue epoch pid 0).emit e) w.now ∧
      total (queue ((w.scheduler.setQueue epoch pid 0).emit e)) +
        w.scheduler.rewardsQueue epoch pid = total (queue w.scheduler)) :
    Solvent here { w with cvx := t, scheduler := (w.scheduler.setQueue epoch pid 0).emit e } := by
  refine ⟨h.self_ne, htake.1, ?_⟩
  have hcov := h.covered
  have htotal := htake.2
  have hpaid := Erc20.le_transfer_add ht here
  show total (queue ((w.scheduler.setQueue epoch pid 0).emit e)) + t.approved here ≤
    t.balanceOf here
  rw [Erc20.approved_transfer ht]
  omega

theorem Solvent.forward (h : Solvent here w) (hx : _forwardRewards here w epoch pid = .ok w') :
    Solvent here w' := by
  obtain ⟨he, hx⟩ := require_bind_eq_ok.1 hx
  obtain ⟨-, hx⟩ := require_bind_eq_ok.1 hx
  obtain ⟨-, hx⟩ := require_bind_eq_ok.1 hx
  obtain ⟨t, ht, hx⟩ := bind_eq_ok.1 hx
  cases hx
  refine h.pay ht (h.accounted.take (fun _ _ => rfl) (fun _ _ => rfl) (fun e' p n heq => ?_) nofun)
  cases heq
  exact he

theorem Solvent.cancel (h : Solvent here w)
    (hx : cancelQueuedRewards here w sender epoch pid = .ok w') : Solvent here w' := by
  obtain ⟨-, hx⟩ := require_bind_eq_ok.1 hx
  obtain ⟨-, hx⟩ := require_bind_eq_ok.1 hx
  obtain ⟨t, ht, hx⟩ := bind_eq_ok.1 hx
  cases hx
  exact h.pay ht (h.accounted.take (fun _ _ => rfl) (fun _ _ => Nat.zero_add _) nofun nofun)

theorem Solvent.exec {c : Call here} (h : Solvent here w) (hs : sender ≠ here)
    (hx : exec w sender c = .ok w') : Solvent here w' := by
  have hkeep : ∀ {x : WardenQuestScheduler}, x.rewardsQueue = w.scheduler.rewardsQueue →
      x.events = w.scheduler.events → Solvent here { w with scheduler := x } := by
    rintro ⟨_, _, _, _, _, _⟩ rfl rfl
    exact ⟨h.self_ne, ⟨h.accounted.finite, h.accounted.account, h.accounted.forwarded,
      h.accounted.queued⟩, h.covered⟩
  cases c with
  | createQuest pid total fee board questID => exact h.createQuest hs hx
  | withdrawAndQueueUnusedRewards questID periodStart board => exact h.withdraw hx
  | emergencyWithdraw board =>
    obtain ⟨-, hx⟩ := require_bind_eq_ok.1 hx
    obtain ⟨t, ht, hx⟩ := bind_eq_ok.1 hx
    cases hx
    exact h.elsewhere ⟨le_rfl, rfl, Erc20.Outside.spends ht⟩
  | forwardRewards pid => exact h.forward (require_bind_eq_ok.1 hx).2
  | forwardQueuedRewards epoch pid => exact h.forward (require_bind_eq_ok.1 hx).2
  | cancelQueuedRewards epoch pid => exact h.cancel hx
  | updateAuthorizedKeepers keeper authorized =>
    obtain ⟨-, hx⟩ := require_bind_eq_ok.1 hx
    cases hx
    exact hkeep rfl rfl
  | transferOwnership newOwner =>
    obtain ⟨-, hx⟩ := require_bind_eq_ok.1 hx
    obtain ⟨-, hx⟩ := require_bind_eq_ok.1 hx
    cases hx
    exact hkeep rfl rfl
  | renounceOwnership =>
    obtain ⟨-, hx⟩ := require_bind_eq_ok.1 hx
    cases hx
    exact hkeep rfl rfl

theorem Solvent.of_reachable (h : (system here).Reachable log w) : Solvent here w :=
  h.induct (fun _ => Solvent.deployed) (fun _ _ _ => Solvent.elsewhere)
    fun _ _ _ _ _ hi hs hx => hi.exec hs.2 hx

/-! ## What moves -/

/-- A forward to the stash, with its event. -/
def Forwarded (here : Address) (w w' : World) (epoch pid : ℕ) (es : List QuestEvent) : Prop :=
  es = [.ForwardedRewards epoch pid (w.scheduler.rewardsQueue epoch pid)] ∧
    w'.scheduler.rewardsQueue epoch pid = 0 ∧ w'.cvx.balanceOf =
      move w.cvx.balanceOf here (w.poolInfo pid).stash (w.scheduler.rewardsQueue epoch pid)

/-- The events of a call, and the tokens that move with them : what is queued has come in, and
what is forwarded or cancelled goes to the stash or to the owner. -/
def Moved (w w' : World) : Call here → List QuestEvent → Prop
  | .withdrawAndQueueUnusedRewards questID _ _, es =>
    ∃ amount, 0 < amount ∧ w.cvx.balanceOf here + amount = w'.cvx.balanceOf here ∧
      es = (List.range duration).map fun i => .QueuedRewards (_getCurrentEpoch w.now + i)
        (w.scheduler.quests questID) (amount / duration)
  | .forwardRewards pid, es => Forwarded here w w' (_getCurrentEpoch w.now) pid es
  | .forwardQueuedRewards epoch pid, es => Forwarded here w w' epoch pid es
  | .cancelQueuedRewards epoch pid, es =>
    es = [.CanceledRewards epoch pid (w.scheduler.rewardsQueue epoch pid)] ∧
      w'.scheduler.rewardsQueue epoch pid = 0 ∧ w'.cvx.balanceOf =
        move w.cvx.balanceOf here w.scheduler.owner (w.scheduler.rewardsQueue epoch pid)
  | _, es => es = [] ∧ w'.scheduler.rewardsQueue = w.scheduler.rewardsQueue

theorem queueLoop_events {rewardAmount k : ℕ}
    (hx : queueLoop pid rewardAmount k epoch s = .ok s') : s'.events = s.events ++
      (List.range k).map fun i => .QueuedRewards (epoch + i) pid rewardAmount := by
  induction k generalizing epoch s with
  | zero =>
    cases hx
    exact (List.append_nil _).symm
  | succ k ih =>
    obtain ⟨s₁, h₁, hx⟩ := bind_eq_ok.1 hx
    obtain ⟨n, -, h₁⟩ := bind_eq_ok.1 h₁
    cases h₁
    rw [ih hx, List.range_succ_eq_map, List.map_cons, List.map_map]
    show s.events ++ [_] ++ _ = _
    rw [List.append_assoc, List.singleton_append]
    simp [Function.comp_def, Nat.add_assoc, Nat.add_comm 1]

theorem rewardsQueue_cleared (s : WardenQuestScheduler) (epoch pid : ℕ) :
    (s.setQueue epoch pid 0).rewardsQueue epoch pid = 0 := by
  rw [rewardsQueue_setQueue, if_pos ⟨rfl, rfl⟩]

theorem _forwardRewards_moves (hx : _forwardRewards here w epoch pid = .ok w') : ∃ es,
    w'.scheduler.events = w.scheduler.events ++ es ∧ Forwarded here w w' epoch pid es := by
  obtain ⟨-, hx⟩ := require_bind_eq_ok.1 hx
  obtain ⟨-, hx⟩ := require_bind_eq_ok.1 hx
  obtain ⟨-, hx⟩ := require_bind_eq_ok.1 hx
  obtain ⟨t, ht, hx⟩ := bind_eq_ok.1 hx
  cases hx
  exact ⟨_, rfl, rfl, rewardsQueue_cleared _ _ _, (Erc20.transfer_eq_ok ht).2.2.2.1⟩

/-- Every call emits its events and moves what they say. -/
theorem exec_moves {c : Call here} (hx : exec w sender c = .ok w') :
    ∃ es, w'.scheduler.events = w.scheduler.events ++ es ∧ Moved w w' c es := by
  cases c with
  | createQuest pid total fee board questID =>
    obtain ⟨-, hx⟩ := require_bind_eq_ok.1 hx
    obtain ⟨-, hx⟩ := require_bind_eq_ok.1 hx
    obtain ⟨n, -, hx⟩ := bind_eq_ok.1 hx
    obtain ⟨t₁, -, hx⟩ := bind_eq_ok.1 hx
    obtain ⟨t₂, -, hx⟩ := bind_eq_ok.1 hx
    obtain ⟨t₃, -, hx⟩ := bind_eq_ok.1 hx
    cases hx
    exact ⟨[], (List.append_nil _).symm, rfl, rfl⟩
  | withdrawAndQueueUnusedRewards questID periodStart board =>
    obtain ⟨-, hx⟩ := require_bind_eq_ok.1 hx
    obtain ⟨-, hx⟩ := require_bind_eq_ok.1 hx
    obtain ⟨finish, -, hx⟩ := bind_eq_ok.1 hx
    obtain ⟨-, hx⟩ := require_bind_eq_ok.1 hx
    obtain ⟨t, ht, hx⟩ := bind_eq_ok.1 hx
    obtain ⟨amount, ha, hx⟩ := bind_eq_ok.1 hx
    obtain ⟨hpos, hx⟩ := require_bind_eq_ok.1 hx
    obtain ⟨s, hs, hx⟩ := bind_eq_ok.1 hx
    cases hx
    obtain ⟨hle, rfl⟩ := usub_eq_ok.1 ha
    obtain ⟨rewardAmount, hr, hs⟩ := bind_eq_ok.1 hs
    obtain ⟨-, rfl⟩ := udiv_eq_ok.1 hr
    exact ⟨_, queueLoop_events hs, _, hpos, Nat.add_sub_of_le hle, rfl⟩
  | forwardRewards pid => exact _forwardRewards_moves (require_bind_eq_ok.1 hx).2
  | forwardQueuedRewards epoch pid => exact _forwardRewards_moves (require_bind_eq_ok.1 hx).2
  | cancelQueuedRewards epoch pid =>
    obtain ⟨-, hx⟩ := require_bind_eq_ok.1 hx
    obtain ⟨-, hx⟩ := require_bind_eq_ok.1 hx
    obtain ⟨t, ht, hx⟩ := bind_eq_ok.1 hx
    cases hx
    exact ⟨_, rfl, rfl, rewardsQueue_cleared _ _ _, (Erc20.transfer_eq_ok ht).2.2.2.1⟩
  | emergencyWithdraw board =>
    obtain ⟨-, hx⟩ := require_bind_eq_ok.1 hx
    obtain ⟨t, -, hx⟩ := bind_eq_ok.1 hx
    cases hx
    exact ⟨[], (List.append_nil _).symm, rfl, rfl⟩
  | updateAuthorizedKeepers keeper authorized =>
    obtain ⟨-, hx⟩ := require_bind_eq_ok.1 hx
    cases hx
    exact ⟨[], (List.append_nil _).symm, rfl, rfl⟩
  | transferOwnership newOwner =>
    obtain ⟨-, hx⟩ := require_bind_eq_ok.1 hx
    obtain ⟨-, hx⟩ := require_bind_eq_ok.1 hx
    cases hx
    exact ⟨[], (List.append_nil _).symm, rfl, rfl⟩
  | renounceOwnership =>
    obtain ⟨-, hx⟩ := require_bind_eq_ok.1 hx
    cases hx
    exact ⟨[], (List.append_nil _).symm, rfl, rfl⟩

/-! ## The main results -/

/-- A keeper can forward what is queued exactly if its epoch has begun and the booster would
accept it : the scheduler never lacks the tokens. -/
theorem Solvent.forward_returns_iff (h : Solvent here w) :
    (∃ w', forwardQueuedRewards here w sender epoch pid = .ok w') ↔
      w.scheduler.authorizedKeepers sender = true ∧ epoch ≤ _getCurrentEpoch w.now ∧
        0 < w.scheduler.rewardsQueue epoch pid ∧ (w.poolInfo pid).shutdown = false ∧
          (w.poolInfo pid).stash ≠ 0 := by
  constructor
  · rintro ⟨w', hx⟩
    obtain ⟨hk, hx⟩ := require_bind_eq_ok.1 hx
    obtain ⟨he, hx⟩ := require_bind_eq_ok.1 hx
    obtain ⟨hpos, hx⟩ := require_bind_eq_ok.1 hx
    obtain ⟨hopen, hx⟩ := require_bind_eq_ok.1 hx
    obtain ⟨t, ht, hx⟩ := bind_eq_ok.1 hx
    exact ⟨hk, he, hpos, hopen, (Erc20.transfer_eq_ok ht).2.1⟩
  · rintro ⟨hk, he, hpos, hopen, hstash⟩
    have hle : w.scheduler.rewardsQueue epoch pid ≤ total (queue w.scheduler) :=
      le_total_of_finite h.accounted.finite (epoch, pid)
    have hcov := h.covered
    obtain ⟨t, ht⟩ := w.cvx.exists_transfer h.self_ne hstash
      (show w.scheduler.rewardsQueue epoch pid ≤ w.cvx.balanceOf here by omega)
    unfold forwardQueuedRewards _forwardRewards
    dsimp only
    rw [require_of hk, ok_bind, require_of he, ok_bind, require_of hpos, ok_bind,
      require_of hopen, ok_bind, ht]
    exact ⟨_, rfl⟩

/-- Whatever the board does, short of calling the scheduler back, and others do, as long as the
owner does not use `execute` : what is queued and what the board may still pull is covered, a
keeper can forward what is queued exactly if its epoch has begun and its pool is not shut down
and has a stash, and then the stash gets all of it. -/
theorem scheduler_solvent (h : (system here).Reachable log w) :
    total (queue w.scheduler) + w.cvx.approved here ≤ w.cvx.balanceOf here ∧
    ∀ sender epoch pid, ((∃ w', forwardQueuedRewards here w sender epoch pid = .ok w') ↔
      w.scheduler.authorizedKeepers sender = true ∧ epoch ≤ _getCurrentEpoch w.now ∧
        0 < w.scheduler.rewardsQueue epoch pid ∧ (w.poolInfo pid).shutdown = false ∧
          (w.poolInfo pid).stash ≠ 0) ∧
      ∀ w', forwardQueuedRewards here w sender epoch pid = .ok w' →
        w'.scheduler.rewardsQueue epoch pid = 0 ∧ w'.cvx.balanceOf =
          move w.cvx.balanceOf here (w.poolInfo pid).stash
            (w.scheduler.rewardsQueue epoch pid) := by
  have hsol := Solvent.of_reachable h
  refine ⟨hsol.covered, fun sender epoch pid => ⟨hsol.forward_returns_iff, fun w' hx => ?_⟩⟩
  obtain ⟨-, -, -, hmoved⟩ := _forwardRewards_moves (require_bind_eq_ok.1 hx).2
  exact hmoved

/-- All that was queued for an epoch of a pool is still queued, was forwarded or was cancelled.
Nothing is queued beyond the next epoch and nothing is forwarded before its own. Every call
emits the events of it and moves what they say : what is queued has come in, and what is
forwarded or cancelled goes to the stash or to the owner. -/
theorem queue_accounted (h : (system here).Reachable log w) :
    (∀ epoch pid, sumOf (queuedBy epoch pid) w.scheduler = w.scheduler.rewardsQueue epoch pid +
      sumOf (forwardedBy epoch pid) w.scheduler + sumOf (canceledBy epoch pid) w.scheduler) ∧
    (∀ epoch pid n, .QueuedRewards epoch pid n ∈ w.scheduler.events →
      epoch ≤ _getCurrentEpoch w.now + 1) ∧
    (∀ epoch pid n, .ForwardedRewards epoch pid n ∈ w.scheduler.events →
      epoch ≤ _getCurrentEpoch w.now) ∧
    ∀ sender (c : Call here) w', exec w sender c = .ok w' →
      ∃ es, w'.scheduler.events = w.scheduler.events ++ es ∧ Moved w w' c es := by
  have hacc := (Solvent.of_reachable h).accounted
  exact ⟨hacc.account, fun e p n hm => Nat.le_of_lt_succ (hacc.queued e p n hm), hacc.forwarded,
    fun _ _ _ hx => exec_moves hx⟩

/-! ## Runs -/

/-- A scheduler at the address 300 with the owner 10 and the board 20. The account 1 holds
10^30 of the token and has approved everybody. -/
def World.initial : World where
  now := 1000
  poolInfo _ := ⟨500, 400, false⟩
  cvx := Erc20.single 1 (10 ^ 30) Erc20.single_supply_lt fun a _ => if a = 1 then 2 ^ 256 - 1 else 0
  scheduler := ⟨10, fun _ => false, 20, fun _ => 0, fun _ _ => 0, []⟩

theorem World.initial_deployed : Deployed 300 World.initial where
  self_ne := by decide
  rewardsQueue := rfl
  events := rfl
  approved := Finset.sum_eq_zero fun b _ => by
    have hne : (300 : Address) ≠ 1 := by decide
    show (if (300 : Address) = 1 then 2 ^ 256 - 1 else 0) = 0
    exact if_neg hne

/-- The world at a later time. -/
def World.at (w : World) (now : ℕ) : World :=
  { w with now }

theorem World.elsewhere_at (w : World) (now : ℕ) (h : w.now ≤ now) : Elsewhere here w (w.at now) :=
  ⟨h, rfl, .refl _ _⟩

/-- A call of the board. -/
def boardCall (c : Erc20.Call Address) : Erc20.Outside (300 : Address) :=
  .one (b := 20) (by decide) c

/-- The account 1 creates the quest 7 for the pool 3, of which the board returns an odd amount.
The keeper 11 queues it and forwards the half of the first epoch. -/
def questRun : List (Event Address (Call 300)) :=
  [⟨2000, 1, .createQuest 3 90 10 (boardCall (.transferFrom 300 20 100)) 7⟩,
    ⟨2000, 10, .updateAuthorizedKeepers 11 true⟩,
    ⟨1300000, 11, .withdrawAndQueueUnusedRewards 7 2000 (boardCall (.transfer 300 51))⟩,
    ⟨1300000, 11, .forwardRewards 3⟩]

theorem questRun_reachable : ∃ w, (system 300).Reachable questRun w ∧
    w.scheduler.rewardsQueue 3 3 = 25 ∧ w.scheduler.authorizedKeepers 11 = true ∧
      w.now = 1300000 ∧ w.poolInfo 3 = ⟨500, 400, false⟩ ∧ w.cvx.balanceOf 400 = 25 := by
  have hvalues : ((system 300).play World.at World.initial questRun).map (fun w =>
      (w.scheduler.rewardsQueue 3 3, w.scheduler.authorizedKeepers 11, w.now, w.poolInfo 3,
        w.cvx.balanceOf 400)) = .ok (25, true, 1300000, ⟨500, 400, false⟩, 25) := by decide +kernel
  obtain ⟨w, hw, hvalues⟩ := Tx.map_eq_ok.1 hvalues
  simp only [Prod.mk.injEq] at hvalues
  exact ⟨w, ⟨_, World.initial_deployed, .play World.elsewhere_at hw⟩, hvalues⟩

/-- What is left for the next epoch cannot be forwarded yet, and then the stash gets it. -/
theorem scheduler_solvent_run : ∃ log w, (system 300).Reachable log w ∧
    25 + w.cvx.approved 300 ≤ w.cvx.balanceOf 300 ∧
    (¬∃ w', forwardQueuedRewards 300 w 11 3 3 = .ok w') ∧
    ∃ w', forwardQueuedRewards 300 (w.at 1900000) 11 3 3 = .ok w' ∧
      w'.cvx.balanceOf 400 = 50 := by
  obtain ⟨w, hreach, hqueue, hkeeper, hnow, hpool, hstash⟩ := questRun_reachable
  obtain ⟨hcov, hforward⟩ := scheduler_solvent hreach
  refine ⟨_, w, hreach, ?_, fun hx => ?_, ?_⟩
  · have hle : queue w.scheduler (3, 3) ≤ total (queue w.scheduler) :=
      le_total_of_finite (Solvent.of_reachable hreach).accounted.finite (3, 3)
    have hval : queue w.scheduler (3, 3) = 25 := hqueue
    omega
  · have he := ((hforward 11 3 3).1.1 hx).2.1
    rw [hnow] at he
    exact absurd he (by decide)
  · obtain ⟨w₀, h₀, hsteps⟩ := hreach
    have hlater : (system 300).Reachable questRun (w.at 1900000) :=
      ⟨w₀, h₀, .elsewhere hsteps (w.elsewhere_at 1900000 (by omega))⟩
    obtain ⟨hiff, hmoves⟩ := (scheduler_solvent hlater).2 11 3 3
    have hpos : 0 < w.scheduler.rewardsQueue 3 3 := by omega
    have hopen : (w.poolInfo 3).shutdown = false := by rw [hpool]
    have hne : (w.poolInfo 3).stash ≠ 0 := by
      rw [hpool]
      decide
    obtain ⟨w', hw'⟩ := hiff.2
      ⟨hkeeper, show 3 ≤ _getCurrentEpoch 1900000 by decide, hpos, hopen, hne⟩
    refine ⟨w', hw', ?_⟩
    have hbal : w'.cvx.balanceOf = move w.cvx.balanceOf 300 (w.poolInfo 3).stash
        (w.scheduler.rewardsQueue 3 3) := (hmoves w' hw').2
    rw [hbal, hpool, hqueue, move_dst _ _ (by decide), hstash]

theorem queue_accounted_run : ∃ log w, (system 300).Reachable log w ∧
    25 ≤ sumOf (queuedBy 3 3) w.scheduler ∧
    ∀ w', forwardQueuedRewards 300 w 11 3 3 = .ok w' →
      w'.cvx.balanceOf = move w.cvx.balanceOf 300 400 25 := by
  obtain ⟨w, hreach, hqueue, -, -, hpool, -⟩ := questRun_reachable
  obtain ⟨hacc, -, -, hmoves⟩ := queue_accounted hreach
  have hsum := hacc 3 3
  refine ⟨_, w, hreach, by omega, fun w' hx => ?_⟩
  obtain ⟨es, -, -, -, hbal⟩ := hmoves 11 (.forwardQueuedRewards 3 3) w' hx
  rwa [hpool, hqueue] at hbal

end Aura.Peripheral.Warden
