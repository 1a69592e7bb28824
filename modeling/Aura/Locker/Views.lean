import Aura.Locker.Storage

/-!
# AuraLocker : views

The view functions of `AuraLocker`. A view takes the storage and the block timestamp and
returns a value or reverts. The `while` loops are `Evm.loop`s with fuel for every round
they can make, and a `for` loop over an array is a recursion over the list.
-/

open Evm

namespace Aura.Locker

open AuraMath

/-! ## Votes -/

/-- `_checkpointsLookup` : binary search for the last checkpoint at or before `epochStart`. -/
def _checkpointsLookup (ckpts : List DelegateeCheckpoint) (epochStart : ℕ) :
    Tx DelegateeCheckpoint := do
  let bounds ← loop ckpts.length
    (fun s : ℕ × ℕ => decide (s.1 < s.2))
    (fun s => do
      let mid := average s.1 s.2
      let ckpt ← index ckpts mid
      if epochStart < ckpt.epochStart then .ok (s.1, mid) else .ok (mid + 1, s.2))
    (0, ckpts.length)
  if bounds.2 = 0 then .ok ⟨0, 0⟩ else index ckpts (bounds.2 - 1)

/-- `getPastVotes`. -/
def getPastVotes (s : Storage) (now : ℕ) (account : Address) (timestamp : ℕ) : Tx ℕ := do
  require (timestamp ≤ now) "ERC20Votes: block not yet mined"
  let epoch := epochOf timestamp
  let ckpt ← _checkpointsLookup (s.voting.checkpointedVotes account) epoch
  if ckpt.votes = 0 ∨ ckpt.epochStart + lockDuration ≤ epoch then .ok 0
  else do
    let rest ← loop epoch
      (fun s : ℕ × ℕ => decide (ckpt.epochStart < s.1))
      (fun r => do
        let votes ← sub r.2 (s.voting.delegateeUnlocks account r.1)
        let epoch ← sub r.1 rewardsDuration
        .ok (epoch, votes))
      (epoch, ckpt.votes)
    .ok rest.2

/-- `getVotes`. -/
def getVotes (s : Storage) (now : ℕ) (account : Address) : Tx ℕ :=
  getPastVotes s now account now

/-! ## Balances -/

/-- `epochs[0].date + _epoch * rewardsDuration`. -/
def epochStartOf (s : Storage) (_epoch : ℕ) : Tx ℕ := do
  let e ← index s.ledger.epochs 0
  let d ← mul _epoch rewardsDuration
  add e.date d

/-- The loop of `balanceAtEpochOf`, over the locks from the last to the first. -/
def sumLocks (epochStart cutoffEpoch : ℕ) : List LockedBalance → ℕ → Tx ℕ
  | [], amount => .ok amount
  | l :: locks, amount => do
    let lockEpoch ← sub l.unlockTime lockDuration
    if lockEpoch < epochStart then
      if cutoffEpoch < lockEpoch then do
        let amount ← add amount l.amount
        sumLocks epochStart cutoffEpoch locks amount
      else .ok amount
    else sumLocks epochStart cutoffEpoch locks amount

/-- `balanceAtEpochOf`. -/
def balanceAtEpochOf (s : Storage) (now : ℕ) (_epoch : ℕ) (_user : Address) : Tx ℕ := do
  let epochStart ← epochStartOf s _epoch
  require (epochStart < now) "Epoch is in the future"
  let cutoffEpoch ← sub epochStart lockDuration
  sumLocks epochStart cutoffEpoch (s.ledger.userLocks _user).reverse 0

/-- The loop of `totalSupplyAtEpoch`, over the epochs from `epochIndex` down to the first. -/
def sumEpochs (epochStart cutoffEpoch : ℕ) : List Epoch → ℕ → Tx ℕ
  | [], supply => .ok supply
  | e :: es, supply =>
    if e.date = epochStart then sumEpochs epochStart cutoffEpoch es supply
    else if e.date ≤ cutoffEpoch then .ok supply
    else do
      let supply ← add supply e.supply
      sumEpochs epochStart cutoffEpoch es supply

/-- `totalSupplyAtEpoch`. -/
def totalSupplyAtEpoch (s : Storage) (now : ℕ) (_epoch : ℕ) : Tx ℕ := do
  let epochStart ← epochStartOf s _epoch
  require (epochStart < now) "Epoch is in the future"
  let cutoffEpoch ← sub epochStart lockDuration
  let lastIndex ← sub s.ledger.epochs.length 1
  let epochIndex := if lastIndex < _epoch then lastIndex else _epoch
  sumEpochs epochStart cutoffEpoch (s.ledger.epochs.take (epochIndex + 1)).reverse 0

/-- `findEpochId`. -/
def findEpochId (s : Storage) (_time : ℕ) : Tx ℕ := do
  let e ← index s.ledger.epochs 0
  let d ← sub _time e.date
  .ok (d / rewardsDuration)

/-- `balanceOf`. -/
def balanceOf (s : Storage) (now : ℕ) (_user : Address) : Tx ℕ := do
  let e ← findEpochId s now
  balanceAtEpochOf s now e _user

/-- `totalSupply`. -/
def totalSupply (s : Storage) (now : ℕ) : Tx ℕ := do
  let e ← findEpochId s now
  totalSupplyAtEpoch s now e

/-- `getPastTotalSupply`. -/
def getPastTotalSupply (s : Storage) (now : ℕ) (timestamp : ℕ) : Tx ℕ := do
  require (timestamp < now) "ERC20Votes: block not yet mined"
  let e ← findEpochId s timestamp
  totalSupplyAtEpoch s now e

/-- What the loop of `lockedBalances` has gathered. -/
structure LockedScan where
  unlockable : ℕ
  locked : ℕ
  /-- How many entries of `lockData` have been written. -/
  idx : ℕ
  lockData : List LockedBalance
  deriving DecidableEq

/-- The loop of `lockedBalances`, over the locks from the index `i` on. The array is
allocated, with zeros, at the first lock that has not expired. -/
def scanLocks (now length : ℕ) : List LockedBalance → ℕ → LockedScan → Tx LockedScan
  | [], _, x => .ok x
  | l :: locks, i, x =>
    if now < l.unlockTime then do
      let size ← usub length i
      let lockData := if x.idx = 0 then List.replicate size ⟨0, 0⟩ else x.lockData
      let lockData ← assign lockData x.idx l
      let idx ← uadd 256 x.idx 1
      let locked ← add x.locked l.amount
      scanLocks now length locks (i + 1) ⟨x.unlockable, locked, idx, lockData⟩
    else do
      let unlockable ← add x.unlockable l.amount
      scanLocks now length locks (i + 1) { x with unlockable := unlockable }

/-- What `lockedBalances` returns. -/
structure LockedBalances where
  total : ℕ
  unlockable : ℕ
  locked : ℕ
  lockData : List LockedBalance
  deriving DecidableEq

/-- `lockedBalances`. -/
def lockedBalances (s : Storage) (now : ℕ) (_user : Address) : Tx LockedBalances := do
  let locks := s.ledger.userLocks _user
  let userBalance := s.ledger.balances _user
  let nextUnlockIndex := userBalance.nextUnlockIndex
  let x ← scanLocks now locks.length (locks.drop nextUnlockIndex) nextUnlockIndex ⟨0, 0, 0, []⟩
  .ok ⟨userBalance.locked, x.unlockable, x.locked, x.lockData⟩

/-! ## Rewards -/

structure EarnedData where
  token : Address
  amount : ℕ
  deriving DecidableEq

/-- `_lastTimeRewardApplicable`. -/
def _lastTimeRewardApplicable (now finishTime : ℕ) : ℕ :=
  AuraMath.min now finishTime

/-- `_rewardPerToken`. -/
def _rewardPerToken (s : Storage) (now : ℕ) (_rewardsToken : Address) : Tx ℕ :=
  let rdata := s.rewards.rewardData _rewardsToken
  if s.ledger.lockedSupply = 0 then .ok rdata.rewardPerTokenStored
  else do
    let elapsed ← sub (_lastTimeRewardApplicable now rdata.periodFinish) rdata.lastUpdateTime
    let x ← mul elapsed rdata.rewardRate
    let x ← mul x (10 ^ 18)
    let x ← div x s.ledger.lockedSupply
    add rdata.rewardPerTokenStored x

/-- `_earned`. -/
def _earned (s : Storage) (now : ℕ) (_user _rewardsToken : Address) (_balance : ℕ) : Tx ℕ := do
  let data := s.rewards.userData _user _rewardsToken
  let rpt ← _rewardPerToken s now _rewardsToken
  let d ← sub rpt data.rewardPerTokenPaid
  let x ← mul _balance d
  add (x / 10 ^ 18) data.rewards

/-- `claimableRewards`. -/
def claimableRewards (s : Storage) (now : ℕ) (_account : Address) : Tx (List EarnedData) :=
  s.rewards.rewardTokens.mapM fun token => do
    let amount ← _earned s now _account token (s.ledger.balances _account).locked
    .ok ⟨token, amount⟩

end Aura.Locker
