import Aura.LockerPull
import Aura.Evm.Run

/-!
# Escrow : AuraVestedEscrow

`AuraVestedEscrow.sol` vests the reward token linearly for the recipients that its funder
names once, before the start. A recipient claims what has vested, as tokens or as a lock; the
admin can cancel a recipient, which pays out what has vested and returns the rest.

The reward token is a standard ERC20 that calls nobody back. The list `payments` records what
the escrow pays and is read by no function.
-/

open Evm Function

namespace Aura.Escrow

/-- `16 weeks`. -/
def minTotalTime : ℕ := 16 * 7 * 86400

structure AuraVestedEscrow where
  /-- `address(this)`. -/
  self : Address
  admin : Address
  funder : Address
  auraLocker : Address
  startTime : ℕ
  endTime : ℕ
  totalTime : ℕ
  initialised : Bool
  totalLocked : Address → ℕ
  totalClaimed : Address → ℕ

/-- A payment of the escrow. -/
inductive Payment where
  /-- The event `Claim`. -/
  | claim (user : Address) (amount : ℕ) (locked : Bool)
  /-- What the admin gets back when `recipient` is cancelled. -/
  | refund (recipient : Address) (amount : ℕ)
  deriving DecidableEq

structure World where
  /-- `block.timestamp`. -/
  now : ℕ
  rewardToken : Erc20 Address
  /-- The locks that the lockers accept. -/
  accepts : Address → Address → ℕ → Bool
  escrow : AuraVestedEscrow
  payments : List Payment

/-- The constructor. -/
def deploy (now : ℕ) (self sender admin_ auraLocker_ : Address)
    (starttime_ endtime_ : ℕ) : Tx AuraVestedEscrow := do
  require (now ≤ starttime_) "start must be future"
  require (starttime_ < endtime_) "end must be greater"
  let totalTime ← usub endtime_ starttime_
  require (minTotalTime ≤ totalTime) "!short"
  .ok ⟨self, admin_, sender, auraLocker_, starttime_, endtime_, totalTime, false,
    fun _ => 0, fun _ => 0⟩

namespace World

variable (w : World)

/-! ## Setup -/

def setAdmin (sender _admin : Address) : Tx World := do
  require (sender = w.escrow.admin) "!auth"
  .ok { w with escrow := { w.escrow with admin := _admin } }

def setLocker (sender _auraLocker : Address) : Tx World := do
  require (sender = w.escrow.admin) "!auth"
  .ok { w with escrow := { w.escrow with auraLocker := _auraLocker } }

/-- A round of the loop of `fund`, on `(totalLocked, totalAmount)`. -/
def fundRound (s : (Address → ℕ) × ℕ) (r : Address × ℕ) : Tx ((Address → ℕ) × ℕ) := do
  let locked ← uadd 256 (s.1 r.1) r.2
  let totalAmount ← uadd 256 s.2 r.2
  .ok (update s.1 r.1 locked, totalAmount)

def fund (sender : Address) (_recipient : List Address) (_amount : List ℕ) : Tx World := do
  let e := w.escrow
  require (_recipient.length = _amount.length) "!arr"
  require (e.initialised = false) "initialised already"
  require (sender = e.funder) "!funder"
  require (w.now < e.startTime) "already started"
  let s ← (_recipient.zip _amount).foldlM fundRound (e.totalLocked, 0)
  let t ← w.rewardToken.transferFrom e.self sender e.self s.2
  .ok { w with
    rewardToken := t
    escrow := { e with initialised := true, totalLocked := s.1 } }

/-! ## Views -/

def _totalVestedOf (_recipient : Address) (_time : ℕ) : Tx ℕ :=
  if _time < w.escrow.startTime then .ok 0
  else do
    let locked := w.escrow.totalLocked _recipient
    let elapsed ← usub _time w.escrow.startTime
    let x ← umul 256 locked elapsed
    let y ← udiv x w.escrow.totalTime
    .ok (AuraMath.min y locked)

def available (_recipient : Address) : Tx ℕ := do
  let vested ← w._totalVestedOf _recipient w.now
  usub vested (w.escrow.totalClaimed _recipient)

def remaining (_recipient : Address) : Tx ℕ := do
  let vested ← w._totalVestedOf _recipient w.now
  usub (w.escrow.totalLocked _recipient) vested

/-! ## Claim -/

/-- The payment in `_claim` : a lock or a transfer. -/
def payOut (_recipient : Address) (claimable : ℕ) (_lock : Bool) : Tx (Erc20 Address) :=
  let e := w.escrow
  if _lock then do
    require (e.auraLocker ≠ 0) "!auraLocker"
    let t ← w.rewardToken.safeApprove e.self e.auraLocker claimable
    lockerPull w.accepts t e.self e.auraLocker _recipient claimable
  else w.rewardToken.transfer e.self _recipient claimable

/-- `_claim`. -/
def _claim (_recipient : Address) (_lock : Bool) : Tx World := do
  let claimable ← w.available _recipient
  let e := w.escrow
  let claimed ← uadd 256 (e.totalClaimed _recipient) claimable
  let t ← w.payOut _recipient claimable _lock
  .ok { w with
    rewardToken := t
    escrow := { e with totalClaimed := update e.totalClaimed _recipient claimed }
    payments := .claim _recipient claimable _lock :: w.payments }

def claim (sender : Address) (_lock : Bool) : Tx World :=
  w._claim sender _lock

def cancel (sender _recipient : Address) : Tx World := do
  require (sender = w.escrow.admin) "!auth"
  require (0 < w.escrow.totalLocked _recipient) "!funding"
  let w ← w._claim _recipient false
  let delta ← w.remaining _recipient
  let e := w.escrow
  let t ← w.rewardToken.transfer e.self e.admin delta
  .ok { w with
    rewardToken := t
    escrow := { e with totalLocked := update e.totalLocked _recipient 0 }
    payments := .refund _recipient delta :: w.payments }

end World

/-! ## Runs -/

/-- The functions that change the state. -/
inductive Call where
  | setAdmin (_admin : Address)
  | setLocker (_auraLocker : Address)
  | fund (_recipient : List Address) (_amount : List ℕ)
  | cancel (_recipient : Address)
  | claim (_lock : Bool)
  deriving DecidableEq

/-- Run a call of `sender`. -/
def exec (w : World) (sender : Address) : Call → Tx World
  | .setAdmin a => w.setAdmin sender a
  | .setLocker a => w.setLocker sender a
  | .fund r n => w.fund sender r n
  | .cancel r => w.cancel sender r
  | .claim b => w.claim sender b

/-- No call comes from the zero account or the escrow itself. -/
def IsCaller (w : World) (a : Address) : Prop :=
  a ≠ 0 ∧ a ≠ w.escrow.self

instance (w : World) (a : Address) : Decidable (IsCaller w a) :=
  inferInstanceAs (Decidable (_ ∧ _))

/-- Time passes, tokens move and lockers change. -/
structure Elsewhere (w w' : World) : Prop where
  now : w.now ≤ w'.now
  rewardToken : Erc20.Others w.escrow.self w.rewardToken w'.rewardToken
  escrow : w'.escrow = w.escrow
  payments : w'.payments = w.payments

/-- The escrow was just deployed and has approved nobody. -/
structure Deployed (w : World) : Prop where
  self_ne : w.escrow.self ≠ 0
  deploy : ∃ admin auraLocker startTime endTime,
    deploy w.now w.escrow.self w.escrow.funder admin auraLocker startTime endTime = .ok w.escrow
  unapproved : w.rewardToken.Unapproved w.escrow.self
  payments : w.payments = []

/-- The escrow and its surroundings. -/
def system : System World Address Call where
  now := World.now
  IsCaller := IsCaller
  exec := exec
  Elsewhere := Elsewhere
  Deployed := Deployed

instance (w : World) (a : Address) : Decidable (system.IsCaller w a) :=
  inferInstanceAs (Decidable (IsCaller w a))

end Aura.Escrow
