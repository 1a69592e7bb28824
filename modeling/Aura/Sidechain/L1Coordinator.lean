import Aura.Bridge.ProxyOft
import Aura.Sidechain.L2Coordinator

/-!
# Sidechain : L1Coordinator

`L1Coordinator.sol` : on the canonical chain it counts the fees that the sidechains have told
it of, has AURA minted for them and sends it there, and takes in the BAL that follows over
other bridges.

The Booster is not part of the sources : what `distributeL2Fees` does to its state and to
the tokens is the class `Booster` over the type `β` of that state. The fields `distributed`
and `pulled` record what was passed to it and what was pulled from bridge delegates, and are
read by no function.
-/

open Evm Function

namespace Aura.Sidechain

open Bridge (ChainId encodePacked requireTrusted)

/-- The Boosters on the canonical chain, at their addresses. -/
class Booster (β : Type) where
  /-- `IBooster(booster).distributeL2Fees(_amount)` on a call of `sender`. -/
  distributeL2Fees : β → (booster sender : Address) → (_amount : ℕ) →
    (Address → Erc20 Address) → Tx (β × (Address → Erc20 Address))

/-- All that `distributeL2Fees` does to the AURA token is a mint to its caller. -/
def MintsToCaller (β : Type) [Booster β] (auraToken : Address) : Prop :=
  ∀ (b : β) (booster sender : Address) (n : ℕ) (tokens : Address → Erc20 Address)
    (r : β × (Address → Erc20 Address)),
    Booster.distributeL2Fees b booster sender n tokens = .ok r →
      ∃ m, (tokens auraToken).mint sender m = .ok (r.2 auraToken)

structure L1Coordinator (β : Type) where
  /-- `address(this)`. -/
  self : Address
  owner : Address
  balToken : Address
  auraToken : Address
  auraOFT : Address
  treasury : Address
  booster : Address
  rewardMultiplier : ℕ
  /-- Total fee debt of a source chain. -/
  feeDebtOf : ChainId → ℕ
  settledFeeDebtOf : ChainId → ℕ
  distributedFeeDebtOf : ChainId → ℕ
  bridgeDelegates : ChainId → Address
  l2Coordinators : ChainId → Address
  distributors : Address → Bool
  /-- The chains with a trusted remote. -/
  trustedRemoteLookup : ChainId → Bool
  tokens : Address → Erc20 Address
  boosters : β
  /-- The amounts passed to `distributeL2Fees`. -/
  distributed : List (ChainId × ℕ)
  /-- The BAL that left bridge delegates. -/
  pulled : List (ChainId × ℕ)

namespace L1Coordinator

/-- `REWARD_MULTIPLIER_DENOMINATOR`. -/
def rewardMultiplierDenominator : ℕ := 10000

variable {β : Type}

def onlyOwner (s : L1Coordinator β) (sender : Address) : Tx Unit :=
  require (s.owner = sender) "Ownable: caller is not the owner"

def transferOwnership (s : L1Coordinator β) (sender newOwner : Address) :
    Tx (L1Coordinator β) := do
  s.onlyOwner sender
  require (newOwner ≠ 0) "Ownable: new owner is the zero address"
  .ok { s with owner := newOwner }

def renounceOwnership (s : L1Coordinator β) (sender : Address) : Tx (L1Coordinator β) := do
  s.onlyOwner sender
  .ok { s with owner := 0 }

/-- `setTrustedRemote`, to the coordinator on the sidechain. -/
def setTrustedRemote (s : L1Coordinator β) (sender : Address) (_srcChainId : ChainId) :
    Tx (L1Coordinator β) := do
  s.onlyOwner sender
  .ok { s with trustedRemoteLookup := update s.trustedRemoteLookup _srcChainId true }

def setBridgeDelegate (s : L1Coordinator β) (sender : Address) (_srcChainId : ChainId)
    (_bridgeDelegate : Address) : Tx (L1Coordinator β) := do
  s.onlyOwner sender
  .ok { s with bridgeDelegates := update s.bridgeDelegates _srcChainId _bridgeDelegate }

def setL2Coordinator (s : L1Coordinator β) (sender : Address) (_srcChainId : ChainId)
    (_l2Coordinator : Address) : Tx (L1Coordinator β) := do
  s.onlyOwner sender
  .ok { s with l2Coordinators := update s.l2Coordinators _srcChainId _l2Coordinator }

def setDistributor (s : L1Coordinator β) (sender _distributor : Address) (_active : Bool) :
    Tx (L1Coordinator β) := do
  s.onlyOwner sender
  .ok { s with distributors := update s.distributors _distributor _active }

def setRewardMultiplier (s : L1Coordinator β) (sender : Address) (_multiplier : ℕ) :
    Tx (L1Coordinator β) := do
  s.onlyOwner sender
  require (_multiplier ≤ rewardMultiplierDenominator) "too high"
  .ok { s with rewardMultiplier := _multiplier }

def setBooster (s : L1Coordinator β) (sender _booster : Address) : Tx (L1Coordinator β) := do
  s.onlyOwner sender
  .ok { s with booster := _booster }

/-- `_notifyFees`. -/
def _notifyFees (s : L1Coordinator β) (_srcChainId : ChainId) (_amount : ℕ) :
    Tx (L1Coordinator β) := do
  let feeDebt ← uadd 256 (s.feeDebtOf _srcChainId) _amount
  .ok { s with feeDebtOf := update s.feeDebtOf _srcChainId feeDebt }

/-- `IBooster(booster).distributeL2Fees(_feeAmount)`. -/
def distributeL2Fees [Booster β] (s : L1Coordinator β) (_srcChainId : ChainId)
    (_feeAmount : ℕ) : Tx (L1Coordinator β) := do
  let r ← Booster.distributeL2Fees s.boosters s.booster s.self _feeAmount s.tokens
  .ok { s with
    boosters := r.1
    tokens := r.2
    distributed := (_srcChainId, _feeAmount) :: s.distributed }

/-- The treasury gets its part of the AURA. -/
def payTreasury (s : L1Coordinator β) (auraTreasuryAmount : ℕ) : Tx (L1Coordinator β) :=
  if 0 < auraTreasuryAmount then do
    let t ← (s.tokens s.auraToken).transfer s.self s.treasury auraTreasuryAmount
    .ok { s with tokens := update s.tokens s.auraToken t }
  else .ok s

/-- `IOFT(auraOFT).sendFrom(address(this), _srcChainId, abi.encodePacked(to), …)`. -/
def sendAura (s : L1Coordinator β) (_srcChainId : ChainId) (dst : Address)
    (auraRewardAmount : ℕ) : Tx (L1Coordinator β × Message) := do
  let r ← Bridge.ProxyOft._debitFrom (s.tokens s.auraToken) s.auraOFT s.self s.self
    auraRewardAmount
  .ok ({ s with tokens := update s.tokens s.auraToken r.1 },
    .oft _srcChainId (encodePacked dst) r.2)

/-- `_distributeAura` : the new state and the messages sent. -/
def _distributeAura [Booster β] (s : L1Coordinator β) (_srcChainId : ChainId)
    (_feeAmount : ℕ) : Tx (L1Coordinator β × List Message) := do
  let auraBefore := (s.tokens s.auraToken).balanceOf s.self
  let s ← s.distributeL2Fees _srcChainId _feeAmount
  let dst := s.l2Coordinators _srcChainId
  require (dst ≠ 0) "to can not be zero"
  let auraAmount ← AuraMath.sub ((s.tokens s.auraToken).balanceOf s.self) auraBefore
  let x ← AuraMath.mul auraAmount s.rewardMultiplier
  let auraRewardAmount ← AuraMath.div x rewardMultiplierDenominator
  require (0 < auraRewardAmount) "!reward"
  let auraTreasuryAmount ← AuraMath.sub auraAmount auraRewardAmount
  let s ← s.payTreasury auraTreasuryAmount
  requireTrusted s.trustedRemoteLookup _srcChainId
  let r ← s.sendAura _srcChainId dst auraRewardAmount
  .ok (r.1, [r.2, .toL2 _srcChainId (.feesCallback auraRewardAmount)])

/-- `distributeAura`. -/
def distributeAura [Booster β] (s : L1Coordinator β) (sender : Address)
    (_srcChainId : ChainId) : Tx (L1Coordinator β × List Message) := do
  require (s.distributors sender = true) "!distributor"
  let distributedFeeDebt := s.distributedFeeDebtOf _srcChainId
  let feeDebt ← AuraMath.sub (s.feeDebtOf _srcChainId) distributedFeeDebt
  let distributed ← AuraMath.add distributedFeeDebt feeDebt
  let s := { s with
    distributedFeeDebtOf := update s.distributedFeeDebtOf _srcChainId distributed }
  s._distributeAura _srcChainId feeDebt

/-- `settleFeeDebt`. -/
def settleFeeDebt (s : L1Coordinator β) (sender : Address) (_srcChainId : ChainId)
    (_amount : ℕ) : Tx (L1Coordinator β) := do
  let bridgeDelegate := s.bridgeDelegates _srcChainId
  require (bridgeDelegate = sender) "!bridgeDelegate"
  let settledFeeDebt := s.settledFeeDebtOf _srcChainId
  let feeOwed ← AuraMath.sub (s.feeDebtOf _srcChainId) settledFeeDebt
  require (_amount ≤ feeOwed) "!amount"
  let settled ← AuraMath.add settledFeeDebt _amount
  let t ← (s.tokens s.balToken).transferFrom s.self bridgeDelegate s.self _amount
  .ok { s with
    settledFeeDebtOf := update s.settledFeeDebtOf _srcChainId settled
    tokens := update s.tokens s.balToken t
    pulled := (_srcChainId,
      (s.tokens s.balToken).balanceOf bridgeDelegate - t.balanceOf bridgeDelegate) :: s.pulled }

/-- `_nonblockingLzReceive`. -/
def _nonblockingLzReceive (s : L1Coordinator β) (_srcChainId : ChainId) :
    Payload → Tx (L1Coordinator β)
  | .fees feeAmount => s._notifyFees _srcChainId feeAmount
  | .feesCallback _ => .ok s

/-! ## Calls -/

inductive Call where
  | transferOwnership (newOwner : Address)
  | renounceOwnership
  | setTrustedRemote (_srcChainId : ChainId)
  | setBridgeDelegate (_srcChainId : ChainId) (_bridgeDelegate : Address)
  | setL2Coordinator (_srcChainId : ChainId) (_l2Coordinator : Address)
  | setDistributor (_distributor : Address) (_active : Bool)
  | setRewardMultiplier (_multiplier : ℕ)
  | setBooster (_booster : Address)
  | distributeAura (_srcChainId : ChainId)
  | settleFeeDebt (_srcChainId : ChainId) (_amount : ℕ)
  deriving DecidableEq

/-- Run a call of `sender` : the new state and the messages sent. -/
def exec [Booster β] (s : L1Coordinator β) (sender : Address) :
    Call → Tx (L1Coordinator β × List Message)
  | .transferOwnership a => quiet (s.transferOwnership sender a)
  | .renounceOwnership => quiet (s.renounceOwnership sender)
  | .setTrustedRemote c => quiet (s.setTrustedRemote sender c)
  | .setBridgeDelegate c a => quiet (s.setBridgeDelegate sender c a)
  | .setL2Coordinator c a => quiet (s.setL2Coordinator sender c a)
  | .setDistributor a b => quiet (s.setDistributor sender a b)
  | .setRewardMultiplier n => quiet (s.setRewardMultiplier sender n)
  | .setBooster a => quiet (s.setBooster sender a)
  | .distributeAura c => s.distributeAura sender c
  | .settleFeeDebt c n => quiet (s.settleFeeDebt sender c n)
where
  /-- A call that sends nothing. -/
  quiet (x : Tx (L1Coordinator β)) : Tx (L1Coordinator β × List Message) := do
    let s ← x
    .ok (s, [])

/-- The contract was just deployed. -/
structure Deployed (s : L1Coordinator β) : Prop where
  oft_ne : s.auraOFT ≠ s.self
  rewardMultiplier : s.rewardMultiplier = rewardMultiplierDenominator
  feeDebtOf : ∀ c, s.feeDebtOf c = 0
  settledFeeDebtOf : ∀ c, s.settledFeeDebtOf c = 0
  distributedFeeDebtOf : ∀ c, s.distributedFeeDebtOf c = 0
  l2Coordinators : ∀ c, s.l2Coordinators c = 0
  distributed : s.distributed = []
  pulled : s.pulled = []

/-- Tokens move and the Boosters change. -/
def Elsewhere (s s' : L1Coordinator β) : Prop :=
  ∃ tokens boosters, s' = { s with tokens, boosters }

end L1Coordinator

end Aura.Sidechain
