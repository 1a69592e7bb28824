import Aura.AuraMath

/-!
# AuraLocker : storage

The storage of `AuraLocker`, in the groups its own comments give it : rewards, balances,
voting and configuration. Mappings are functions, arrays are lists, and every word is a
natural number; the widths are checked where the code checks them.

The addresses the constructor fixes are fields of the configuration, as is the address of
the contract itself. The name, symbol and decimals of the token play no part in any action.
-/

open Evm

namespace Aura.Locker

/-- One week : the length of an epoch and of a reward period. -/
def rewardsDuration : ℕ := 86400 * 7

/-- Duration of a lock. -/
def lockDuration : ℕ := rewardsDuration * 17

def newRewardRatio : ℕ := 830

def denominator : ℕ := 10000

structure RewardData where
  /-- Timestamp for current period finish, `uint32`. -/
  periodFinish : ℕ
  /-- Last time any user took action, `uint32`. -/
  lastUpdateTime : ℕ
  /-- Reward rate for the rest of the period, `uint96`. -/
  rewardRate : ℕ
  /-- Ever increasing reward per token, `uint96`. -/
  rewardPerTokenStored : ℕ
  deriving DecidableEq

structure UserData where
  rewardPerTokenPaid : ℕ
  rewards : ℕ
  deriving DecidableEq

structure Balances where
  locked : ℕ
  nextUnlockIndex : ℕ
  deriving DecidableEq

structure LockedBalance where
  amount : ℕ
  unlockTime : ℕ
  deriving DecidableEq

structure Epoch where
  supply : ℕ
  /-- Epoch start date. -/
  date : ℕ
  deriving DecidableEq

structure DelegateeCheckpoint where
  votes : ℕ
  epochStart : ℕ
  deriving DecidableEq

structure Rewards where
  rewardTokens : List Address
  queuedRewards : Address → ℕ
  rewardData : Address → RewardData
  /-- Reward token, distributor : is approved to add rewards. -/
  rewardDistributors : Address → Address → Bool
  /-- User, reward token. -/
  userData : Address → Address → UserData

structure Ledger where
  lockedSupply : ℕ
  /-- Only the tokens that were locked at that epoch, not a cumulative supply. -/
  epochs : List Epoch
  balances : Address → Balances
  userLocks : Address → List LockedBalance

structure Voting where
  delegates : Address → Address
  checkpointedVotes : Address → List DelegateeCheckpoint
  /-- Delegatee, unlock timestamp : amount. -/
  delegateeUnlocks : Address → ℕ → ℕ

structure Config where
  /-- `address(this)`. -/
  self : Address
  owner : Address
  blacklist : Address → Bool
  kickRewardPerEpoch : ℕ
  kickRewardEpochDelay : ℕ
  isShutdown : Bool
  stakingToken : Address
  cvxCrv : Address
  cvxcrvStaking : Address

/-- The storage of the contract. -/
structure Storage where
  rewards : Rewards
  ledger : Ledger
  voting : Voting
  config : Config

/-- `t.div(rewardsDuration).mul(rewardsDuration)` : the start of the epoch of `t`. -/
def epochOf (t : ℕ) : ℕ :=
  t / rewardsDuration * rewardsDuration

/-- `block.timestamp.add(rewardsDuration).div(rewardsDuration).mul(rewardsDuration)`. -/
def upcomingEpoch (now : ℕ) : Tx ℕ := do
  let t ← AuraMath.add now rewardsDuration
  .ok (epochOf t)

/-- The constructor, at time `now`. -/
def deploy (now : ℕ) (self owner stakingToken cvxCrv cvxcrvStaking : Address) : Storage where
  rewards :=
    { rewardTokens := []
      queuedRewards := fun _ => 0
      rewardData := fun _ => ⟨0, 0, 0, 0⟩
      rewardDistributors := fun _ _ => false
      userData := fun _ _ => ⟨0, 0⟩ }
  ledger :=
    { lockedSupply := 0
      epochs := [⟨0, trunc 32 (epochOf now)⟩]
      balances := fun _ => ⟨0, 0⟩
      userLocks := fun _ => [] }
  voting :=
    { delegates := fun _ => 0
      checkpointedVotes := fun _ => []
      delegateeUnlocks := fun _ _ => 0 }
  config :=
    { self, owner, stakingToken, cvxCrv, cvxcrvStaking
      blacklist := fun _ => false
      kickRewardPerEpoch := 100
      kickRewardEpochDelay := 3
      isShutdown := false }

end Aura.Locker
