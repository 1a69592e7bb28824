import Aura.LockerPull
import Aura.Evm.Run

/-!
# RewardPool : AuraBalRewardPool

`AuraBalRewardPool.sol` streams AURA to the stakers of another token, once and for 14 days :
whatever it holds when the rewards are initialised. A reward is paid less a penalty, or as a
lock.

Both tokens are standard ERC20s that call nobody back, and they are different, which the
constructor checks.
-/

open Evm Function

namespace Aura.RewardPool

/-- `14 days`. -/
def duration : ℕ := 14 * 86400

structure AuraBalRewardPool where
  /-- `address(this)`. -/
  self : Address
  rewardManager : Address
  auraLocker : Address
  penaltyForwarder : Address
  pendingPenalty : ℕ
  startTime : ℕ
  periodFinish : ℕ
  rewardRate : ℕ
  lastUpdateTime : ℕ
  rewardPerTokenStored : ℕ
  _totalSupply : ℕ
  userRewardPerTokenPaid : Address → ℕ
  rewards : Address → ℕ
  _balances : Address → ℕ

structure World where
  /-- `block.timestamp`. -/
  now : ℕ
  stakingToken : Erc20 Address
  rewardToken : Erc20 Address
  /-- The locks that the lockers accept. -/
  accepts : Address → Address → ℕ → Bool
  pool : AuraBalRewardPool

/-- The constructor, for the tokens at the given addresses. -/
def deploy (now : ℕ) (self _stakingToken _rewardToken _rewardManager _auraLocker
    _penaltyForwarder : Address) (_startDelay : ℕ) : Tx AuraBalRewardPool := do
  require (_stakingToken ≠ _rewardToken ∧ _stakingToken ≠ 0) "!tokens"
  require (_rewardManager ≠ 0) "!manager"
  require (_auraLocker ≠ 0) "!locker"
  require (_penaltyForwarder ≠ 0) "!forwarder"
  require (4 * 86400 < _startDelay ∧ _startDelay < 2 * 7 * 86400) "!delay"
  let startTime ← uadd 256 now _startDelay
  .ok ⟨self, _rewardManager, _auraLocker, _penaltyForwarder, 0, startTime, 0, 0, 0, 0, 0,
    fun _ => 0, fun _ => 0, fun _ => 0⟩

namespace World

variable (w : World)

/-! ## Views -/

def lastTimeRewardApplicable : ℕ :=
  AuraMath.min w.now w.pool.periodFinish

def rewardPerToken : Tx ℕ :=
  let p := w.pool
  if p._totalSupply = 0 then .ok p.rewardPerTokenStored
  else do
    let x ← usub w.lastTimeRewardApplicable p.lastUpdateTime
    let x ← umul 256 x p.rewardRate
    let x ← umul 256 x (10 ^ 18)
    let x ← udiv x p._totalSupply
    uadd 256 p.rewardPerTokenStored x

def earned (account : Address) : Tx ℕ := do
  let r ← w.rewardPerToken
  let x ← usub r (w.pool.userRewardPerTokenPaid account)
  let x ← umul 256 (w.pool._balances account) x
  let x ← udiv x (10 ^ 18)
  uadd 256 x (w.pool.rewards account)

/-! ## Staking -/

/-- The end of `updateReward` : the zero account is never settled. -/
def settle (account : Address) : Tx World :=
  if account ≠ 0 then do
    let e ← w.earned account
    let p := w.pool
    .ok { w with
      pool := { p with
        rewards := update p.rewards account e
        userRewardPerTokenPaid :=
          update p.userRewardPerTokenPaid account p.rewardPerTokenStored } }
  else .ok w

/-- The modifier `updateReward`. -/
def updateReward (account : Address) : Tx World := do
  let r ← w.rewardPerToken
  let w' : World := { w with
    pool := { w.pool with
      rewardPerTokenStored := r
      lastUpdateTime := w.lastTimeRewardApplicable } }
  w'.settle account

def stakeFor (sender _for : Address) (_amount : ℕ) : Tx World := do
  let w ← w.updateReward _for
  require (0 < _amount) "RewardPool : Cannot stake 0"
  let p := w.pool
  let totalSupply ← uadd 256 p._totalSupply _amount
  let balance ← uadd 256 (p._balances _for) _amount
  let t ← w.stakingToken.transferFrom p.self sender p.self _amount
  .ok { w with
    stakingToken := t
    pool := { p with
      _totalSupply := totalSupply
      _balances := update p._balances _for balance } }

def stake (sender : Address) (_amount : ℕ) : Tx World :=
  w.stakeFor sender sender _amount

def stakeAll (sender : Address) : Tx World :=
  w.stake sender (w.stakingToken.balanceOf sender)

/-! ## Rewards -/

/-- The payment in `getReward` : the tokens and the pending penalty after it. -/
def payOut (sender : Address) (reward : ℕ) (_lock : Bool) : Tx (Erc20 Address × ℕ) :=
  let p := w.pool
  if _lock then do
    let t ← w.rewardToken.safeIncreaseAllowance p.self p.auraLocker reward
    let t ← lockerPull w.accepts t p.self p.auraLocker sender reward
    .ok (t, p.pendingPenalty)
  else do
    let x ← umul 256 reward 3
    let penalty := x / 10
    let pendingPenalty ← uadd 256 p.pendingPenalty penalty
    let x ← usub reward penalty
    let t ← w.rewardToken.transfer p.self sender x
    .ok (t, pendingPenalty)

/-- `getReward` after `updateReward`. -/
def payReward (sender : Address) (_lock : Bool) : Tx World :=
  let p := w.pool
  if 0 < p.rewards sender then do
    let r ← w.payOut sender (p.rewards sender) _lock
    .ok { w with
      rewardToken := r.1
      pool := { p with
        rewards := update p.rewards sender 0
        pendingPenalty := r.2 } }
  else .ok w

def getReward (sender : Address) (_lock : Bool) : Tx World := do
  let w ← w.updateReward sender
  w.payReward sender _lock

/-- `withdraw` without the claim at its end. -/
def unstake (sender : Address) (amount : ℕ) : Tx World := do
  let w ← w.updateReward sender
  require (0 < amount) "RewardPool : Cannot withdraw 0"
  let p := w.pool
  let totalSupply ← usub p._totalSupply amount
  let balance ← usub (p._balances sender) amount
  let t ← w.stakingToken.transfer p.self sender amount
  .ok { w with
    stakingToken := t
    pool := { p with
      _totalSupply := totalSupply
      _balances := update p._balances sender balance } }

def withdraw (sender : Address) (amount : ℕ) (claim lock : Bool) : Tx World := do
  let w ← w.unstake sender amount
  if claim then w.getReward sender lock else .ok w

/-! ## Penalty, rescue and initialisation -/

def forwardPenalty : Tx World := do
  let p := w.pool
  let toForward := p.pendingPenalty
  let t ← w.rewardToken.transfer p.self p.penaltyForwarder toForward
  .ok { w with rewardToken := t, pool := { p with pendingPenalty := 0 } }

def rescueReward (sender : Address) : Tx World := do
  let p := w.pool
  require (sender = p.rewardManager) "!rescuer"
  require (w.now < p.startTime ∧ p.rewardRate = 0) "Already started"
  let t ← w.rewardToken.transfer p.self p.rewardManager (w.rewardToken.balanceOf p.self)
  .ok { w with rewardToken := t }

def setLocker (sender _newLocker : Address) : Tx World := do
  require (sender = w.pool.rewardManager) "!auth"
  .ok { w with pool := { w.pool with auraLocker := _newLocker } }

def initialiseRewards (sender : Address) : Tx World := do
  let p := w.pool
  require (sender = p.rewardManager ∨ p.startTime < w.now) "!authorized"
  require (p.rewardRate = 0) "!one time"
  let rewardsAvailable := w.rewardToken.balanceOf p.self
  require (0 < rewardsAvailable) "!balance"
  let rewardRate ← udiv rewardsAvailable duration
  let periodFinish ← uadd 256 w.now duration
  .ok { w with pool := { p with rewardRate, lastUpdateTime := w.now, periodFinish } }

end World

/-! ## Runs -/

/-- The functions that change the state. -/
inductive Call where
  | stake (_amount : ℕ)
  | stakeAll
  | stakeFor (_for : Address) (_amount : ℕ)
  | withdraw (amount : ℕ) (claim lock : Bool)
  | getReward (_lock : Bool)
  | forwardPenalty
  | rescueReward
  | setLocker (_newLocker : Address)
  | initialiseRewards
  deriving DecidableEq

/-- Run a call of `sender`. -/
def exec (w : World) (sender : Address) : Call → Tx World
  | .stake n => w.stake sender n
  | .stakeAll => w.stakeAll sender
  | .stakeFor a n => w.stakeFor sender a n
  | .withdraw n claim lock => w.withdraw sender n claim lock
  | .getReward b => w.getReward sender b
  | .forwardPenalty => w.forwardPenalty
  | .rescueReward => w.rescueReward sender
  | .setLocker a => w.setLocker sender a
  | .initialiseRewards => w.initialiseRewards sender

/-- No call comes from the zero account or the pool itself. -/
def IsCaller (w : World) (a : Address) : Prop :=
  a ≠ 0 ∧ a ≠ w.pool.self

instance (w : World) (a : Address) : Decidable (IsCaller w a) :=
  inferInstanceAs (Decidable (_ ∧ _))

/-- Time passes, tokens move and lockers change. -/
structure Elsewhere (w w' : World) : Prop where
  now : w.now ≤ w'.now
  stakingToken : Erc20.Others w.pool.self w.stakingToken w'.stakingToken
  rewardToken : Erc20.Others w.pool.self w.rewardToken w'.rewardToken
  pool : w'.pool = w.pool

/-- The pool was just deployed and has approved nobody. -/
structure Deployed (w : World) : Prop where
  self_ne : w.pool.self ≠ 0
  deploy : ∃ stakingToken rewardToken manager locker forwarder startDelay,
    deploy w.now w.pool.self stakingToken rewardToken manager locker forwarder startDelay =
      .ok w.pool
  staking_unapproved : w.stakingToken.Unapproved w.pool.self
  reward_unapproved : w.rewardToken.Unapproved w.pool.self

/-- The pool and its surroundings. -/
def system : System World Address Call where
  now := World.now
  IsCaller := IsCaller
  exec := exec
  Elsewhere := Elsewhere
  Deployed := Deployed

instance (w : World) (a : Address) : Decidable (system.IsCaller w a) :=
  inferInstanceAs (Decidable (IsCaller w a))

end Aura.RewardPool
