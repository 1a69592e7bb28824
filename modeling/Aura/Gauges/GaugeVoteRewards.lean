import Aura.Bridge.Oft
import Aura.Gauges.StashRewardDistro

/-!
# Gauges : GaugeVoteRewards

`GaugeVoteRewards.sol` divides the AURA of an epoch among the gauges in proportion to the
votes : to the pools of this chain through `StashRewardDistro`, and to those of the other
chains by a message and a transfer of AURA.

The vote of the Booster, the proxy of AURA and the recipient of a stakeless gauge can
revert, which only makes a call revert : this is left out, as are gas and fees. The field
`payments` records what was handed out and is read by no function.
-/

open Evm Function

namespace Aura.Gauges

open Bridge (ChainId requireTrusted)

structure Pid where
  value : ℕ
  isSet : Bool

/-- AURA handed out. -/
structure Payment where
  epoch : ℕ
  gauge : Address
  amount : ℕ
  deriving DecidableEq

/-- What `processSidechainGaugeRewards` sends : the payload, and AURA to the recipient. -/
structure Sent where
  dstChainId : ChainId
  epoch : ℕ
  /-- The gauge on the other chain and its amount. -/
  payloads : List (Address × ℕ)
  recipient : Address
  amount : ℕ

structure GaugeVoteRewards where
  /-- `block.timestamp`. -/
  now : ℕ
  /-- `address(this)`. -/
  self : Address
  owner : Address
  aura : Address
  auraOFT : Address
  tokens : Address → Erc20 Address
  stashRewardDistro : StashRewardDistro
  /-- The gauges of the pools of the Booster. -/
  poolGauges : List Address
  /-- `IStakelessGauge(gauge).getRecipient()`. -/
  getRecipient : Address → Address
  trustedRemoteLookup : ChainId → Bool
  lzChainId : ChainId
  rewardPerEpoch : ℕ
  distributor : Address
  getDstChainId : Address → ChainId
  getChildGaugeVoteRewards : ChainId → Address
  getPoolId : Address → Pid
  /-- Epoch, gauge. -/
  getWeightByEpoch : ℕ → Address → ℕ
  isProcessed : ℕ → Address → Bool
  isNoDepositGauge : Address → Bool
  getTotalWeight : ℕ → ℕ
  payments : List Payment

namespace GaugeVoteRewards

/-- `TOTAL_WEIGHT_PER_EPOCH`. -/
def totalWeightPerEpoch : ℕ := 10000

/-- `EPOCH_DURATION`. -/
def epochDuration : ℕ := 86400 * 14

def onlyOwner (s : GaugeVoteRewards) (sender : Address) : Tx Unit :=
  require (s.owner = sender) "Ownable: caller is not the owner"

def onlyDistributor (s : GaugeVoteRewards) (sender : Address) : Tx Unit :=
  require (sender = s.distributor) "!distributor"

/-- `_getCurrentEpoch`. -/
def _getCurrentEpoch (s : GaugeVoteRewards) : ℕ :=
  s.now / epochDuration

/-! ## Setters -/

def setDistributor (s : GaugeVoteRewards) (sender _distributor : Address) :
    Tx GaugeVoteRewards := do
  s.onlyOwner sender
  .ok { s with distributor := _distributor }

def setRewardPerEpoch (s : GaugeVoteRewards) (sender : Address) (_rewardPerEpoch : ℕ) :
    Tx GaugeVoteRewards := do
  s.onlyOwner sender
  .ok { s with rewardPerEpoch := _rewardPerEpoch }

def setIsNoDepositGauge (s : GaugeVoteRewards) (sender _gauge : Address) (_isNoDeposit : Bool) :
    Tx GaugeVoteRewards := do
  s.onlyOwner sender
  .ok { s with isNoDepositGauge := update s.isNoDepositGauge _gauge _isNoDeposit }

def setChildGaugeVoteRewards (s : GaugeVoteRewards) (sender : Address) (_dstChainId : ChainId)
    (_voteReward : Address) : Tx GaugeVoteRewards := do
  s.onlyOwner sender
  require (_dstChainId ≠ s.lzChainId) "!dstChainId"
  .ok { s with
    getChildGaugeVoteRewards := update s.getChildGaugeVoteRewards _dstChainId _voteReward }

def setDstChainId (s : GaugeVoteRewards) (sender : Address) (_gauges : List Address)
    (_dstChainId : ChainId) : Tx GaugeVoteRewards := do
  s.onlyOwner sender
  require (_dstChainId ≠ s.lzChainId) "!localChain"
  .ok { s with
    getDstChainId := _gauges.foldl (fun f gauge => update f gauge _dstChainId) s.getDstChainId }

/-- One round of the loop of `setPoolIds`. -/
def setPoolId (s : GaugeVoteRewards) (i : ℕ) : Tx GaugeVoteRewards := do
  let gauge ← index s.poolGauges i
  .ok { s with
    getPoolId := update s.getPoolId gauge ⟨trunc 128 i, true⟩
    getDstChainId :=
      if s.getDstChainId gauge = 0 then update s.getDstChainId gauge s.lzChainId
      else s.getDstChainId }

/-- `setPoolIds`. -/
def setPoolIds (s : GaugeVoteRewards) (start stop : ℕ) : Tx GaugeVoteRewards :=
  (List.range' start (stop - start)).foldlM setPoolId s

/-! ## Votes -/

/-- What the loop of `voteGaugeWeight` has summed up. -/
structure Tally where
  state : GaugeVoteRewards
  totalWeight : ℕ
  totalDepositWeight : ℕ

/-- One round of the loop of `voteGaugeWeight`. -/
def voteGauge (epoch : ℕ) (r : Tally) (v : Address × ℕ) : Tx Tally := do
  let s := r.state
  let totalWeight ← AuraMath.add r.totalWeight v.2
  if s.isNoDepositGauge v.1 = true then .ok { r with totalWeight }
  else do
    require (s.getDstChainId v.1 ≠ 0) "!dstChainId"
    let totalDepositWeight ← AuraMath.add r.totalDepositWeight v.2
    .ok ⟨{ s with
        getWeightByEpoch :=
          update s.getWeightByEpoch epoch (update (s.getWeightByEpoch epoch) v.1 v.2) },
      totalWeight, totalDepositWeight⟩

/-- `voteGaugeWeight`. -/
def voteGaugeWeight (s : GaugeVoteRewards) (sender : Address) (_gauge : List Address)
    (_weight : List ℕ) : Tx GaugeVoteRewards := do
  s.onlyOwner sender
  let epoch := s._getCurrentEpoch
  require (0 < s.rewardPerEpoch) "!rewardPerEpoch"
  require (_gauge.length = _weight.length) "!length"
  require (s.getTotalWeight epoch = 0) "already voted"
  let r ← (_gauge.zip _weight).foldlM (voteGauge epoch) ⟨s, 0, 0⟩
  let s := r.state
  let s := { s with getTotalWeight := update s.getTotalWeight epoch r.totalDepositWeight }
  require (r.totalWeight = totalWeightPerEpoch) "!totalWeight"
  .ok s

/-! ## Rewards -/

/-- `_getAmountToSend`. -/
def _getAmountToSend (s : GaugeVoteRewards) (_epoch : ℕ) (_gauge : Address) : Tx ℕ := do
  let weight := s.getWeightByEpoch _epoch _gauge
  let x ← AuraMath.mul s.rewardPerEpoch weight
  AuraMath.div x (s.getTotalWeight _epoch)

/-- `_calculateAmountToSend`. -/
def _calculateAmountToSend (s : GaugeVoteRewards) (_epoch : ℕ) (_gauge : Address) :
    Tx (GaugeVoteRewards × ℕ) := do
  let amountToSend ← s._getAmountToSend _epoch _gauge
  require (amountToSend ≠ 0) "amountToSend=0"
  require (s.isProcessed _epoch _gauge = false) "isProcessed"
  .ok ({ s with
    isProcessed := update s.isProcessed _epoch (update (s.isProcessed _epoch) _gauge true) },
    amountToSend)

/-- One round of the loop of `processGaugeRewards`. -/
def processGauge (_epoch : ℕ) (s : GaugeVoteRewards) (gauge : Address) :
    Tx GaugeVoteRewards := do
  require (s.isNoDepositGauge gauge = false) "noDepositGauge"
  require (s.getDstChainId gauge = s.lzChainId) "dstChainId!=lzChainId"
  let r ← s._calculateAmountToSend _epoch gauge
  let s := r.1
  let pid := s.getPoolId gauge
  require (pid.isSet = true) "!poolId"
  let f ← s.stashRewardDistro.fundPool s.now s.tokens s.self pid.value s.aura r.2 2
  .ok { s with
    stashRewardDistro := f.1
    tokens := f.2
    payments := ⟨_epoch, gauge, r.2⟩ :: s.payments }

/-- `processGaugeRewards`. -/
def processGaugeRewards (s : GaugeVoteRewards) (sender : Address) (_epoch : ℕ)
    (_gauge : List Address) : Tx GaugeVoteRewards := do
  s.onlyDistributor sender
  require (_epoch ≤ s._getCurrentEpoch) "!epoch"
  _gauge.foldlM (processGauge _epoch) s

/-- What the loop of `processSidechainGaugeRewards` has gathered. -/
structure Batch where
  state : GaugeVoteRewards
  totalAmountToSend : ℕ
  payloads : List (Address × ℕ)

/-- One round of the loop of `processSidechainGaugeRewards`. -/
def processSidechainGauge (_epoch : ℕ) (_dstChainId : ChainId) (b : Batch) (gauge : Address) :
    Tx Batch := do
  require (b.state.getDstChainId gauge = _dstChainId) "!dstChainId"
  let r ← b.state._calculateAmountToSend _epoch gauge
  let totalAmountToSend ← AuraMath.add b.totalAmountToSend r.2
  let s := r.1
  .ok ⟨{ s with payments := ⟨_epoch, gauge, r.2⟩ :: s.payments }, totalAmountToSend,
    b.payloads ++ [(s.getRecipient gauge, r.2)]⟩

/-- `processSidechainGaugeRewards`. The proxy of AURA pulls what it sends. -/
def processSidechainGaugeRewards (s : GaugeVoteRewards) (sender : Address)
    (_gauge : List Address) (_epoch : ℕ) (_dstChainId : ChainId) :
    Tx (GaugeVoteRewards × Sent) := do
  s.onlyDistributor sender
  let childGaugeVoteRewards := s.getChildGaugeVoteRewards _dstChainId
  require (childGaugeVoteRewards ≠ 0) "!childGaugeVoteReward"
  let b ← _gauge.foldlM (processSidechainGauge _epoch _dstChainId) ⟨s, 0, []⟩
  let s := b.state
  requireTrusted s.trustedRemoteLookup _dstChainId
  let t ← (s.tokens s.aura).transferFrom s.auraOFT s.self s.auraOFT b.totalAmountToSend
  .ok ({ s with tokens := update s.tokens s.aura t },
    ⟨_dstChainId, _epoch, b.payloads, childGaugeVoteRewards, b.totalAmountToSend⟩)

/-- `transferERC20`. -/
def transferERC20 (s : GaugeVoteRewards) (sender _token _to : Address) (_amount : ℕ) :
    Tx GaugeVoteRewards := do
  s.onlyOwner sender
  let t ← (s.tokens _token).transfer s.self _to _amount
  .ok { s with tokens := update s.tokens _token t }

/-! ## Runs -/

inductive Call where
  | setDistributor (_distributor : Address)
  | setRewardPerEpoch (_rewardPerEpoch : ℕ)
  | setIsNoDepositGauge (_gauge : Address) (_isNoDeposit : Bool)
  | setChildGaugeVoteRewards (_dstChainId : ChainId) (_voteReward : Address)
  | setDstChainId (_gauges : List Address) (_dstChainId : ChainId)
  | setPoolIds (start stop : ℕ)
  | voteGaugeWeight (_gauge : List Address) (_weight : List ℕ)
  | processGaugeRewards (_epoch : ℕ) (_gauge : List Address)
  | processSidechainGaugeRewards (_gauge : List Address) (_epoch : ℕ) (_dstChainId : ChainId)
  | transferERC20 (_token _to : Address) (_amount : ℕ)
  deriving DecidableEq

/-- Run a call of `sender`. -/
def exec (s : GaugeVoteRewards) (sender : Address) : Call → Tx GaugeVoteRewards
  | .setDistributor a => s.setDistributor sender a
  | .setRewardPerEpoch n => s.setRewardPerEpoch sender n
  | .setIsNoDepositGauge a b => s.setIsNoDepositGauge sender a b
  | .setChildGaugeVoteRewards c a => s.setChildGaugeVoteRewards sender c a
  | .setDstChainId gs c => s.setDstChainId sender gs c
  | .setPoolIds i j => s.setPoolIds i j
  | .voteGaugeWeight gs ws => s.voteGaugeWeight sender gs ws
  | .processGaugeRewards e gs => s.processGaugeRewards sender e gs
  | .processSidechainGaugeRewards gs e c => do
    let r ← s.processSidechainGaugeRewards sender gs e c
    .ok r.1
  | .transferERC20 t a n => s.transferERC20 sender t a n

/-- The state after a call : a call that reverts changes nothing. -/
def step (s : GaugeVoteRewards) (sender : Address) (c : Call) : GaugeVoteRewards :=
  match s.exec sender c with
  | .ok s' => s'
  | .error _ => s

/-- Time passes, tokens move, pools are added, and the remotes and recipients change. -/
def Elsewhere (s s' : GaugeVoteRewards) : Prop :=
  ∃ now tokens getFunds poolGauges getRecipient trustedRemoteLookup, s.now ≤ now ∧
    s' = { s with
      now, tokens, poolGauges, getRecipient, trustedRemoteLookup
      stashRewardDistro := { s.stashRewardDistro with getFunds } }

/-- Runs from `s` in which the reward of an epoch is only ever set to `R`. -/
inductive Steps (R : ℕ) (s : GaugeVoteRewards) : GaugeVoteRewards → Prop
  | refl : Steps R s s
  | elsewhere {s₁ s₂ : GaugeVoteRewards} : Steps R s s₁ → Elsewhere s₁ s₂ → Steps R s s₂
  | call {s₁ : GaugeVoteRewards} {sender : Address} {c : Call} : Steps R s s₁ →
      (∀ n, c = .setRewardPerEpoch n → n = R) → Steps R s (s₁.step sender c)

/-- The contract was just deployed. -/
structure Deployed (s : GaugeVoteRewards) : Prop where
  distro_ne : s.stashRewardDistro.self ≠ s.self
  oft_ne : s.auraOFT ≠ s.self
  rewardPerEpoch : s.rewardPerEpoch = 0
  getWeightByEpoch : ∀ e g, s.getWeightByEpoch e g = 0
  isProcessed : ∀ e g, s.isProcessed e g = false
  getTotalWeight : ∀ e, s.getTotalWeight e = 0
  payments : s.payments = []

end GaugeVoteRewards

end Aura.Gauges
