import Aura.Locker.Views

/-!
# AuraLocker : actions

The state changing functions of `AuraLocker`. A function that touches only the storage
takes and returns `Storage`; one that moves tokens takes and returns `World`, which adds
the block timestamp and the ledgers of the tokens. Calls to the reward staking contract
(`stakeFor`) and to tokens are the token movements they make.

Every function that reverts in the source reverts here, with the same reason, and a
revert leaves the world unchanged because nothing is returned.
-/

open Evm Function

namespace Aura.Locker

open AuraMath

/-- The contract, the tokens and the clock. -/
structure World where
  /-- `block.timestamp`. -/
  now : ℕ
  tokens : Address → Erc20 Address
  /-- Code size of an account. -/
  extcodesize : Address → ℕ
  locker : Storage

namespace World

/-- `IERC20(token).safeTransfer(dst, amount)` by the locker. -/
def safeTransfer (w : World) (token dst : Address) (amount : ℕ) : Tx World := do
  let t ← (w.tokens token).transfer w.locker.config.self dst amount
  .ok { w with tokens := update w.tokens token t }

/-- `IERC20(token).safeTransferFrom(src, address(this), amount)` by the locker. -/
def safeTransferFrom (w : World) (token src : Address) (amount : ℕ) : Tx World := do
  let self := w.locker.config.self
  let t ← (w.tokens token).transferFrom self src self amount
  .ok { w with tokens := update w.tokens token t }

/-- `IERC20(token).safeApprove(spender, amount)` by the locker. -/
def safeApprove (w : World) (token spender : Address) (amount : ℕ) : Tx World := do
  let self := w.locker.config.self
  require (amount = 0 ∨ (w.tokens token).allowance self spender = 0)
    "SafeERC20: approve from non-zero to non-zero allowance"
  let t ← (w.tokens token).approve self spender amount
  .ok { w with tokens := update w.tokens token t }

end World

/-! ## Modifiers -/

/-- `rewardData[token] = rdata`. -/
def setRewardData (s : Storage) (token : Address) (rdata : RewardData) : Storage :=
  let r := { s.rewards with rewardData := update s.rewards.rewardData token rdata }
  { s with rewards := r }

/-- `userData[_account][token] = data`. -/
def setUserData (s : Storage) (_account token : Address) (data : UserData) : Storage :=
  let r := { s.rewards with
    userData := update s.rewards.userData _account
      (update (s.rewards.userData _account) token data) }
  { s with rewards := r }

/-- One round of the loop of `updateReward`. -/
def updateRewardToken (s : Storage) (now : ℕ) (_account token : Address) : Tx Storage := do
  let newRewardPerToken ← _rewardPerToken s now token
  let stored ← to96 newRewardPerToken
  let rdata := s.rewards.rewardData token
  let lastUpdateTime ← to32 (_lastTimeRewardApplicable now rdata.periodFinish)
  let s := setRewardData s token
    { rdata with rewardPerTokenStored := stored, lastUpdateTime := lastUpdateTime }
  if _account ≠ 0 then do
    let rewardPerTokenPaid ← to128 newRewardPerToken
    let earned ← _earned s now _account token (s.ledger.balances _account).locked
    let rewards ← to128 earned
    .ok (setUserData s _account token ⟨rewardPerTokenPaid, rewards⟩)
  else .ok s

/-- The modifier `updateReward`. -/
def updateReward (s : Storage) (now : ℕ) (_account : Address) : Tx Storage :=
  s.rewards.rewardTokens.foldlM (fun s token => updateRewardToken s now _account token) s

/-- The modifier `notBlacklisted`. -/
def notBlacklisted (c : Config) (_sender _receiver : Address) : Tx Unit := do
  require (c.blacklist _sender = false) "blacklisted"
  if _sender ≠ _receiver then require (c.blacklist _receiver = false) "blacklisted"
  else .ok ()

/-- The modifier `onlyOwner`. -/
def onlyOwner (c : Config) (sender : Address) : Tx Unit :=
  require (c.owner = sender) "Ownable: caller is not the owner"

/-! ## Epochs and delegates -/

/-- `_checkpointEpoch` : insert a new epoch if needed, fill in any gaps. -/
def _checkpointEpoch (l : Ledger) (now : ℕ) : Tx Ledger := do
  let currentEpoch := epochOf now
  let e ← last l.epochs
  if e.date < currentEpoch then do
    let r ← loop currentEpoch
      (fun r : ℕ × List Epoch => decide (r.1 ≠ currentEpoch))
      (fun r => do
        let nextEpochDate ← add r.1 rewardsDuration
        .ok (nextEpochDate, r.2 ++ [⟨0, trunc 32 nextEpochDate⟩]))
      (e.date, l.epochs)
    .ok { l with epochs := r.2 }
  else .ok l

/-- `a + _upcomingAddition - _upcomingDeduction`, as a checkpoint at `upcomingEpoch`. -/
def checkpointAt (a _upcomingAddition _upcomingDeduction upcomingEpoch : ℕ) :
    Tx DelegateeCheckpoint := do
  let votes ← add a _upcomingAddition
  let votes ← sub votes _upcomingDeduction
  let votes ← to224 votes
  let epochStart ← to32 upcomingEpoch
  .ok ⟨votes, epochStart⟩

/-- The checkpoints of a delegatee after one at `upcomingEpoch` is written : the last one is
overwritten if it is at that epoch, else a new one starts from the votes of the last one
less the unlocks since. -/
def writeCheckpoint (ckpts : List DelegateeCheckpoint) (delegateeUnlocks : ℕ → ℕ)
    (upcomingEpoch _upcomingAddition _upcomingDeduction : ℕ) : Tx (List DelegateeCheckpoint) :=
  match ckpts.getLast? with
  | some prevCkpt =>
    -- If there has already been a record for the upcoming epoch, no need to deduct the unlocks
    if prevCkpt.epochStart = upcomingEpoch then do
      let c ← checkpointAt prevCkpt.votes _upcomingAddition _upcomingDeduction upcomingEpoch
      .ok (ckpts.dropLast ++ [c])
    -- else if it has been over 16 weeks since the previous checkpoint, all locks have since expired
    else if prevCkpt.epochStart + lockDuration ≤ upcomingEpoch then do
      let c ← checkpointAt 0 _upcomingAddition _upcomingDeduction upcomingEpoch
      .ok (ckpts ++ [c])
    else do
      let r ← loop upcomingEpoch
        (fun r : ℕ × ℕ => decide (prevCkpt.epochStart < r.1))
        (fun r => do
          let unlocksSinceLatestCkpt ← add r.2 (delegateeUnlocks r.1)
          let nextEpoch ← sub r.1 rewardsDuration
          .ok (nextEpoch, unlocksSinceLatestCkpt))
        (upcomingEpoch, 0)
      let votes ← sub prevCkpt.votes r.2
      let c ← checkpointAt votes _upcomingAddition _upcomingDeduction upcomingEpoch
      .ok (ckpts ++ [c])
  | none => do
    let c ← checkpointAt 0 _upcomingAddition _upcomingDeduction upcomingEpoch
    .ok (ckpts ++ [c])

/-- `_checkpointDelegate`. -/
def _checkpointDelegate (v : Voting) (now : ℕ) (_account : Address)
    (_upcomingAddition _upcomingDeduction : ℕ) : Tx Voting :=
  -- This would only skip on first checkpointing
  if _account ≠ 0 then do
    let upcoming ← upcomingEpoch now
    let ckpts ← writeCheckpoint (v.checkpointedVotes _account) (v.delegateeUnlocks _account)
      upcoming _upcomingAddition _upcomingDeduction
    .ok { v with checkpointedVotes := update v.checkpointedVotes _account ckpts }
  else .ok v

/-- `delegateeUnlocks[delegatee][unlockTime] = n`. -/
def setUnlocks (u : Address → ℕ → ℕ) (delegatee : Address) (unlockTime n : ℕ) :
    Address → ℕ → ℕ :=
  update u delegatee (update (u delegatee) unlockTime n)

/-- The unlocks after `amount` no longer unlocks for the old delegatee, if there is one. -/
def deductUnlock (unlocks : Address → ℕ → ℕ) (oldDelegatee : Address) (unlockTime amount : ℕ) :
    Tx (Address → ℕ → ℕ) :=
  if oldDelegatee ≠ 0 then do
    let n ← sub (unlocks oldDelegatee unlockTime) amount
    .ok (setUnlocks unlocks oldDelegatee unlockTime n)
  else .ok unlocks

/-- Step 3.1 of `delegate`, over the locks from the last to the first : move the unlocks
after `upcomingEpoch` from the old to the new delegatee and sum them. -/
def moveUnlocks (oldDelegatee newDelegatee : Address) (upcomingEpoch : ℕ) :
    List LockedBalance → (Address → ℕ → ℕ) → ℕ → Tx ((Address → ℕ → ℕ) × ℕ)
  | [], unlocks, futureUnlocksSum => .ok (unlocks, futureUnlocksSum)
  | currentLock :: locks, unlocks, futureUnlocksSum =>
    if upcomingEpoch < currentLock.unlockTime then do
      let futureUnlocksSum ← add futureUnlocksSum currentLock.amount
      let unlocks ← deductUnlock unlocks oldDelegatee currentLock.unlockTime currentLock.amount
      let n ← add (unlocks newDelegatee currentLock.unlockTime) currentLock.amount
      moveUnlocks oldDelegatee newDelegatee upcomingEpoch locks
        (setUnlocks unlocks newDelegatee currentLock.unlockTime n) futureUnlocksSum
    else .ok (unlocks, futureUnlocksSum)

/-- `delegate`. -/
def delegate (s : Storage) (now : ℕ) (sender newDelegatee : Address) : Tx Storage := do
  -- Step 1: Get lock data
  let locks := s.ledger.userLocks sender
  require (0 < locks.length) "Nothing to delegate"
  require (newDelegatee ≠ 0) "Must delegate to someone"
  -- Step 2: Update delegatee storage
  let oldDelegatee := s.voting.delegates sender
  require (newDelegatee ≠ oldDelegatee) "Must choose new delegatee"
  -- Step 3: Move balances around
  let upcoming ← upcomingEpoch now
  let moved ← moveUnlocks oldDelegatee newDelegatee upcoming locks.reverse
    s.voting.delegateeUnlocks 0
  let v := { s.voting with
    delegates := update s.voting.delegates sender newDelegatee
    delegateeUnlocks := moved.1 }
  let v ← _checkpointDelegate v now oldDelegatee 0 moved.2
  let v ← _checkpointDelegate v now newDelegatee moved.2 0
  .ok { s with voting := v }

/-! ## Locking -/

/-- The lock records of a user after `lockAmount` is locked until `unlockTime` : a new
record, or an increase of the last one. -/
def addLock (locks : List LockedBalance) (lockAmount unlockTime : ℕ) : Tx (List LockedBalance) :=
  match locks.getLast? with
  | none => .ok (locks ++ [⟨lockAmount, trunc 32 unlockTime⟩])
  | some userL =>
    if userL.unlockTime < unlockTime then .ok (locks ++ [⟨lockAmount, trunc 32 unlockTime⟩])
    else do
      let amount ← AuraMath112.add userL.amount lockAmount
      .ok (locks.dropLast ++ [{ userL with amount := amount }])

/-- The part of `_lock` that concerns the delegatee of the account. -/
def lockVotes (v : Voting) (now : ℕ) (_account : Address) (lockAmount unlockTime : ℕ) :
    Tx Voting :=
  let delegatee := v.delegates _account
  if delegatee ≠ 0 then do
    let n ← add (v.delegateeUnlocks delegatee unlockTime) lockAmount
    let v := { v with delegateeUnlocks := setUnlocks v.delegateeUnlocks delegatee unlockTime n }
    _checkpointDelegate v now delegatee lockAmount 0
  else .ok v

/-- The part of `_lock` that concerns balances, supplies, lock records and epochs. -/
def lockLedger (l : Ledger) (_account : Address) (_amount lockAmount unlockTime : ℕ) :
    Tx Ledger := do
  let bal := l.balances _account
  let locked ← AuraMath112.add bal.locked lockAmount
  let lockedSupply ← add l.lockedSupply _amount
  let locks ← addLock (l.userLocks _account) lockAmount unlockTime
  let e ← last l.epochs
  let supply ← AuraMath224.add e.supply lockAmount
  .ok { lockedSupply := lockedSupply
        epochs := l.epochs.dropLast ++ [{ e with supply := supply }]
        balances := update l.balances _account { bal with locked := locked }
        userLocks := update l.userLocks _account locks }

/-- `_lock`. -/
def _lock (s : Storage) (now : ℕ) (sender _account : Address) (_amount : ℕ) : Tx Storage := do
  notBlacklisted s.config sender _account
  require (0 < _amount) "Cannot stake 0"
  require (s.config.isShutdown = false) "shutdown"
  --must try check pointing epoch first
  let l ← _checkpointEpoch s.ledger now
  let lockAmount ← to112 _amount
  let unlockTime ← add (epochOf now) lockDuration
  let l ← lockLedger l _account _amount lockAmount unlockTime
  let v ← lockVotes s.voting now _account lockAmount unlockTime
  .ok { s with ledger := l, voting := v }

/-- `lock`. -/
def lock (w : World) (sender _account : Address) (_amount : ℕ) : Tx World := do
  let s ← updateReward w.locker w.now _account
  let w ← { w with locker := s }.safeTransferFrom s.config.stakingToken sender _amount
  let s ← _lock w.locker w.now sender _account _amount
  .ok { w with locker := s }

/-! ## Expiry -/

/-- The kick reward for `amount` unlocked at `unlockTime` : each epoch over due increases
the rate. -/
def kickReward (c : Config) (now _checkDelay unlockTime amount : ℕ) : Tx ℕ := do
  let t ← sub now _checkDelay
  let late ← sub (epochOf t) unlockTime
  let epochsover ← add (late / rewardsDuration) 1
  let rate ← mul c.kickRewardPerEpoch epochsover
  let x ← mul amount (AuraMath.min rate denominator)
  .ok (x / denominator)

/-- The kick reward when there is a `_checkDelay`, else nothing. -/
def kickRewardIf (c : Config) (now _checkDelay unlockTime amount : ℕ) : Tx ℕ :=
  if 0 < _checkDelay then kickReward c now _checkDelay unlockTime amount else .ok 0

/-- What `_processExpiredLocks` collects. -/
structure Expired where
  locked : ℕ
  reward : ℕ
  nextUnlockIndex : ℕ

/-- The loop of `_processExpiredLocks`, over the locks from `nextUnlockIndex`. -/
def expireLoop (c : Config) (now _checkDelay expiryTime : ℕ) :
    List LockedBalance → Expired → Tx Expired
  | [], x => .ok x
  | l :: locks, x =>
    --unlock time must be less or equal to time
    if expiryTime < l.unlockTime then .ok x
    else do
      let locked ← AuraMath112.add x.locked l.amount
      let r ← kickRewardIf c now _checkDelay l.unlockTime l.amount
      let reward ← add x.reward r
      let nextUnlockIndex ← uadd 32 x.nextUnlockIndex 1
      expireLoop c now _checkDelay expiryTime locks ⟨locked, reward, nextUnlockIndex⟩

/-- The locks that `_processExpiredLocks` takes : all of them after a shutdown or when the
last one has expired, else those from `nextUnlockIndex` up to `expiryTime`. -/
def expired (s : Storage) (now : ℕ) (_account : Address) (_checkDelay expiryTime : ℕ) :
    Tx Expired := do
  let locks := s.ledger.userLocks _account
  let userBalance := s.ledger.balances _account
  let lastLock ← last locks
  if s.config.isShutdown = true ∨ lastLock.unlockTime ≤ expiryTime then do
    let nextUnlockIndex ← to32 locks.length
    let reward ← kickRewardIf s.config now _checkDelay lastLock.unlockTime userBalance.locked
    .ok ⟨userBalance.locked, reward, nextUnlockIndex⟩
  else
    expireLoop s.config now _checkDelay expiryTime (locks.drop userBalance.nextUnlockIndex)
      ⟨0, 0, userBalance.nextUnlockIndex⟩

/-- `block.timestamp.add(rewardsDuration)` when relocking, else
`block.timestamp.sub(_checkDelay)`. -/
def expiryTimeOf (now : ℕ) (_relock : Bool) (_checkDelay : ℕ) : Tx ℕ :=
  if _checkDelay = 0 ∧ _relock = true then add now rewardsDuration else sub now _checkDelay

/-- The balances of `_account` and the locked supply after `x` has expired. -/
def unlock (l : Ledger) (_account : Address) (x : Expired) : Tx Ledger := do
  let locked ← AuraMath112.sub (l.balances _account).locked x.locked
  let lockedSupply ← sub l.lockedSupply x.locked
  .ok { l with
    lockedSupply := lockedSupply
    balances := update l.balances _account ⟨locked, x.nextUnlockIndex⟩ }

/-- The part of `_processExpiredLocks` that changes the storage, up to the transfers. -/
def expireLocks (s : Storage) (now : ℕ) (_account : Address) (_relock : Bool) (_checkDelay : ℕ) :
    Tx (Storage × Expired) := do
  let expiryTime ← expiryTimeOf now _relock _checkDelay
  require (0 < (s.ledger.userLocks _account).length) "no locks"
  let x ← expired s now _account _checkDelay expiryTime
  require (0 < x.locked) "no exp locks"
  let l ← unlock s.ledger _account x
  --checkpoint the delegatee
  let v ← _checkpointDelegate s.voting now (s.voting.delegates _account) 0 0
  .ok ({ s with ledger := l, voting := v }, x)

/-- Send the process incentive, if there is one, and deduct it from the locked amount. -/
def sendIncentive (w : World) (_rewardAddress : Address) (reward locked : ℕ) :
    Tx (World × ℕ) :=
  if 0 < reward then do
    let r ← to112 reward
    let locked ← AuraMath112.sub locked r
    let w ← w.safeTransfer w.locker.config.stakingToken _rewardAddress reward
    .ok (w, locked)
  else .ok (w, locked)

/-- `_processExpiredLocks`. -/
def _processExpiredLocks (w : World) (sender _account : Address) (_relock : Bool)
    (_rewardAddress : Address) (_checkDelay : ℕ) : Tx World := do
  let s ← updateReward w.locker w.now _account
  let (s, x) ← expireLocks s w.now _account _relock _checkDelay
  --send process incentive
  let (w, locked) ← sendIncentive { w with locker := s } _rewardAddress x.reward x.locked
  --relock or return to user
  if _relock = true then do
    let s ← _lock w.locker w.now sender _account locked
    .ok { w with locker := s }
  else w.safeTransfer w.locker.config.stakingToken _account locked

/-- `processExpiredLocks`. -/
def processExpiredLocks (w : World) (sender : Address) (_relock : Bool) : Tx World :=
  _processExpiredLocks w sender sender _relock sender 0

/-- `kickExpiredLocks`. -/
def kickExpiredLocks (w : World) (sender _account : Address) : Tx World := do
  --allow kick after grace period of 'kickRewardEpochDelay'
  let delay ← mul rewardsDuration w.locker.config.kickRewardEpochDelay
  _processExpiredLocks w sender _account false sender delay

/-- `emergencyWithdraw`. -/
def emergencyWithdraw (w : World) (sender : Address) : Tx World := do
  let s := w.locker
  require (s.config.isShutdown = true) "Must be shutdown"
  let locks := s.ledger.userLocks sender
  let amt := (s.ledger.balances sender).locked
  require (0 < amt) "Nothing locked"
  let nextUnlockIndex ← to32 locks.length
  let lockedSupply ← usub s.ledger.lockedSupply amt
  let l := { s.ledger with
    lockedSupply := lockedSupply
    balances := update s.ledger.balances sender ⟨0, nextUnlockIndex⟩ }
  { w with locker := { s with ledger := l } }.safeTransfer s.config.stakingToken sender amt

/-! ## Rewards -/

/-- `userData[_account][_rewardsToken].rewards = 0`. -/
def clearRewards (s : Storage) (_account _rewardsToken : Address) : Storage :=
  setUserData s _account _rewardsToken
    { s.rewards.userData _account _rewardsToken with rewards := 0 }

/-- One round of the loop of `getReward` : the rewards go to the account, or are staked for
it, in which case the staking contract pulls them. -/
def payReward (w : World) (sender _account : Address) (_stake : Bool) (_rewardsToken : Address) :
    Tx World :=
  let reward := (w.locker.rewards.userData _account _rewardsToken).rewards
  let c := w.locker.config
  if 0 < reward then
    let w := { w with locker := clearRewards w.locker _account _rewardsToken }
    if _rewardsToken = c.cvxCrv ∧ _stake = true ∧ _account = sender then
      w.safeTransfer _rewardsToken c.cvxcrvStaking reward
    else w.safeTransfer _rewardsToken _account reward
  else .ok w

/-- `getReward(address, bool)`; `getReward(address)` is its case `_stake = false`. -/
def getReward (w : World) (sender _account : Address) (_stake : Bool) : Tx World := do
  let s ← updateReward w.locker w.now _account
  s.rewards.rewardTokens.foldlM (fun w token => payReward w sender _account _stake token)
    { w with locker := s }

/-- `getReward(address, bool[])`. -/
def getRewardSkip (w : World) (sender _account : Address) (_skipIdx : List Bool) : Tx World := do
  let s ← updateReward w.locker w.now _account
  require (_skipIdx.length = s.rewards.rewardTokens.length) "!arr"
  (s.rewards.rewardTokens.zip _skipIdx).foldlM
    (fun w p => if p.2 then .ok w else payReward w sender _account false p.1)
    { w with locker := s }

/-- The reward rate after `_reward` is added, together with what is left of the period. -/
def newRewardRate (rdata : RewardData) (now _reward : ℕ) : Tx ℕ :=
  if rdata.periodFinish ≤ now then to96 (_reward / rewardsDuration)
  else do
    let remaining ← sub rdata.periodFinish now
    let leftover ← mul remaining rdata.rewardRate
    let total ← add _reward leftover
    to96 (total / rewardsDuration)

/-- `_notifyReward`. -/
def _notifyReward (s : Storage) (now : ℕ) (_rewardsToken : Address) (_reward : ℕ) : Tx Storage := do
  let s ← updateReward s now 0
  let rdata := s.rewards.rewardData _rewardsToken
  let rewardRate ← newRewardRate rdata now _reward
  -- Equivalent to 10 million tokens over a weeks duration
  require (rewardRate < 10 ^ 20) "!rewardRate"
  require (10 ^ 20 ≤ s.ledger.lockedSupply) "!balance"
  let lastUpdateTime ← to32 now
  let finish ← add now rewardsDuration
  let periodFinish ← to32 finish
  .ok (setRewardData s _rewardsToken
    { rdata with
      rewardRate := rewardRate
      lastUpdateTime := lastUpdateTime
      periodFinish := periodFinish })

/-- `queuedRewards[_rewardsToken] = n`. -/
def setQueued (s : Storage) (_rewardsToken : Address) (n : ℕ) : Storage :=
  let r := { s.rewards with queuedRewards := update s.rewards.queuedRewards _rewardsToken n }
  { s with rewards := r }

/-- `queueNewRewards`, after the rewards were pulled. -/
def queueRewards (s : Storage) (now : ℕ) (_rewardsToken : Address) (_rewards : ℕ) :
    Tx Storage := do
  let rdata := s.rewards.rewardData _rewardsToken
  let _rewards ← add _rewards (s.rewards.queuedRewards _rewardsToken)
  require (_rewards < 10 ^ 25) "!rewards"
  if rdata.periodFinish ≤ now then do
    let s ← _notifyReward s now _rewardsToken _rewards
    .ok (setQueued s _rewardsToken 0)
  else do
    --et = now - (finish-duration)
    let duration ← to32 rewardsDuration
    let start ← AuraMath32.sub rdata.periodFinish duration
    let elapsedTime ← sub now start
    --current at now: rewardRate * elapsedTime
    let currentAtNow ← umul 256 rdata.rewardRate elapsedTime
    let x ← mul currentAtNow 1000
    let queuedRatio ← div x _rewards
    if queuedRatio < newRewardRatio then do
      let s ← _notifyReward s now _rewardsToken _rewards
      .ok (setQueued s _rewardsToken 0)
    else .ok (setQueued s _rewardsToken _rewards)

/-- `queueNewRewards`. -/
def queueNewRewards (w : World) (sender _rewardsToken : Address) (_rewards : ℕ) : Tx World := do
  require (w.locker.rewards.rewardDistributors _rewardsToken sender = true) "!authorized"
  require (0 < _rewards) "No reward"
  let w ← w.safeTransferFrom _rewardsToken sender _rewards
  let s ← queueRewards w.locker w.now _rewardsToken _rewards
  .ok { w with locker := s }

/-! ## Administration -/

/-- `rewardDistributors[_rewardsToken][_distributor] = _approved`. -/
def setDistributor (r : Rewards) (_rewardsToken _distributor : Address) (_approved : Bool) :
    Rewards :=
  { r with
    rewardDistributors := update r.rewardDistributors _rewardsToken
      (update (r.rewardDistributors _rewardsToken) _distributor _approved) }

/-- `addReward`. -/
def addReward (s : Storage) (now : ℕ) (sender _rewardsToken _distributor : Address) :
    Tx Storage := do
  onlyOwner s.config sender
  let rdata := s.rewards.rewardData _rewardsToken
  require (rdata.lastUpdateTime = 0) "Reward already exists"
  require (_rewardsToken ≠ s.config.stakingToken) "Cannot add StakingToken as reward"
  require (s.rewards.rewardTokens.length < 5) "Max rewards length"
  let r := { s.rewards with
    rewardTokens := s.rewards.rewardTokens ++ [_rewardsToken]
    rewardData := update s.rewards.rewardData _rewardsToken
      { rdata with lastUpdateTime := trunc 32 now, periodFinish := trunc 32 now } }
  .ok { s with rewards := setDistributor r _rewardsToken _distributor true }

/-- `approveRewardDistributor`. -/
def approveRewardDistributor (s : Storage) (sender _rewardsToken _distributor : Address)
    (_approved : Bool) : Tx Storage := do
  onlyOwner s.config sender
  require (0 < (s.rewards.rewardData _rewardsToken).lastUpdateTime) "Reward does not exist"
  .ok { s with rewards := setDistributor s.rewards _rewardsToken _distributor _approved }

/-- `setKickIncentive`. -/
def setKickIncentive (s : Storage) (sender : Address) (_rate _delay : ℕ) : Tx Storage := do
  onlyOwner s.config sender
  require (_rate ≤ 500) "over max rate"
  require (2 ≤ _delay) "min delay"
  let c := { s.config with kickRewardPerEpoch := _rate, kickRewardEpochDelay := _delay }
  .ok { s with config := c }

/-- `shutdown`. -/
def shutdown (s : Storage) (sender : Address) : Tx Storage := do
  onlyOwner s.config sender
  let c := { s.config with isShutdown := true }
  .ok { s with config := c }

/-- `modifyBlacklist`. -/
def modifyBlacklist (w : World) (sender _account : Address) (_blacklisted : Bool) : Tx World := do
  onlyOwner w.locker.config sender
  require (w.extcodesize _account ≠ 0) "Must be contract"
  let c := { w.locker.config with
    blacklist := update w.locker.config.blacklist _account _blacklisted }
  .ok { w with locker := { w.locker with config := c } }

/-- `transferOwnership` of `Ownable`. -/
def transferOwnership (s : Storage) (sender newOwner : Address) : Tx Storage := do
  onlyOwner s.config sender
  require (newOwner ≠ 0) "Ownable: new owner is the zero address"
  let c := { s.config with owner := newOwner }
  .ok { s with config := c }

/-- `recoverERC20`. -/
def recoverERC20 (w : World) (sender _tokenAddress : Address) (_tokenAmount : ℕ) : Tx World := do
  onlyOwner w.locker.config sender
  require (_tokenAddress ≠ w.locker.config.stakingToken) "Cannot withdraw staking token"
  require ((w.locker.rewards.rewardData _tokenAddress).lastUpdateTime = 0)
    "Cannot withdraw reward token"
  w.safeTransfer _tokenAddress w.locker.config.owner _tokenAmount

/-- `setApprovals`. -/
def setApprovals (w : World) : Tx World := do
  let c := w.locker.config
  let w ← w.safeApprove c.cvxCrv c.cvxcrvStaking 0
  w.safeApprove c.cvxCrv c.cvxcrvStaking (2 ^ 256 - 1)

end Aura.Locker
