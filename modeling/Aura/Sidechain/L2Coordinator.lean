import Aura.Bridge.Oft

/-!
# Sidechain : L2Coordinator

`L2Coordinator.sol` : on every sidechain it collects the fees that the L1 is told of, and
pays the AURA that the L1 sends for them to those who claim rewards.

A payload is modelled by what it encodes. Gas, native fees and adapter parameters can only
make a call revert, and are left out.
-/

open Evm Function

namespace Aura.Sidechain

open Bridge (ChainId Bytes toAddress requireTrusted)

/-! ## Messages -/

/-- The messages of `CrossChainMessages` between the coordinators. -/
inductive Payload where
  /-- `CCM.encodeFees(amount)`. -/
  | fees (amount : ℕ)
  /-- `CCM.encodeFeesCallback(cvxAmount)`. -/
  | feesCallback (cvxAmount : ℕ)
  deriving DecidableEq

/-- What is sent between the canonical chain and the sidechains. -/
inductive Message where
  | toL1 (srcChainId : ChainId) (payload : Payload)
  | toL2 (dstChainId : ChainId) (payload : Payload)
  /-- A transfer of AURA, for the `AuraOFT` of a sidechain. -/
  | oft (dstChainId : ChainId) (toAddressBytes : Bytes) (amount : ℕ)
  deriving DecidableEq

/-! ## The contract -/

structure L2Coordinator where
  /-- `address(this)`. -/
  self : Address
  owner : Address
  canonicalChainId : ChainId
  auraOFT : Address
  booster : Address
  balToken : Address
  bridgeDelegate : Address
  /-- Accumulated BAL rewards. -/
  accBalRewards : ℕ
  /-- Pending fees to notify L1Coordinator. -/
  pendingNotifyFees : ℕ
  /-- Accumulated AURA rewards. -/
  accAuraRewards : ℕ
  /-- The chains with a trusted remote. -/
  trustedRemoteLookup : ChainId → Bool
  /-- The tokens of the sidechain. -/
  tokens : Address → Erc20 Address

namespace L2Coordinator

/-- `mintRate` : AURA per BAL rewards. -/
def mintRate (s : L2Coordinator) : Tx ℕ :=
  if s.accBalRewards = 0 then .ok 0
  else do
    let x ← AuraMath.mul s.accAuraRewards (10 ^ 18)
    AuraMath.div x s.accBalRewards

def onlyOwner (s : L2Coordinator) (sender : Address) : Tx Unit :=
  require (s.owner = sender) "Ownable: caller is not the owner"

def transferOwnership (s : L2Coordinator) (sender newOwner : Address) : Tx L2Coordinator := do
  s.onlyOwner sender
  require (newOwner ≠ 0) "Ownable: new owner is the zero address"
  .ok { s with owner := newOwner }

def renounceOwnership (s : L2Coordinator) (sender : Address) : Tx L2Coordinator := do
  s.onlyOwner sender
  .ok { s with owner := 0 }

/-- `setTrustedRemote`, to the coordinator on the canonical chain. -/
def setTrustedRemote (s : L2Coordinator) (sender : Address) (_srcChainId : ChainId) :
    Tx L2Coordinator := do
  s.onlyOwner sender
  .ok { s with trustedRemoteLookup := update s.trustedRemoteLookup _srcChainId true }

/-- `initialize`. -/
def init (s : L2Coordinator) (sender _booster _balToken : Address) : Tx L2Coordinator := do
  s.onlyOwner sender
  require (s.booster = 0) "already initialized"
  .ok { s with booster := _booster, balToken := _balToken }

def setBridgeDelegate (s : L2Coordinator) (sender _bridgeDelegate : Address) :
    Tx L2Coordinator := do
  s.onlyOwner sender
  .ok { s with bridgeDelegate := _bridgeDelegate }

/-- The part of `mint` before the transfer, with the amount to transfer. -/
def takeRewards (s : L2Coordinator) (_amount : ℕ) : Tx (L2Coordinator × ℕ) := do
  let _mintRate ← s.mintRate
  require (0 < _mintRate) "!mintRate"
  let x ← umul 256 _amount _mintRate
  let amount := x / 10 ^ 18
  let accBalRewards ← AuraMath.sub s.accBalRewards _amount
  let accAuraRewards ← AuraMath.sub s.accAuraRewards amount
  .ok ({ s with accBalRewards, accAuraRewards }, amount)

/-- `mint`. -/
def mint (s : L2Coordinator) (sender _to : Address) (_amount : ℕ) : Tx L2Coordinator := do
  require (sender = s.booster) "!booster"
  let r ← s.takeRewards _amount
  let t ← (s.tokens s.auraOFT).transfer s.self _to r.2
  .ok { r.1 with tokens := update s.tokens s.auraOFT t }

/-- `queueNewRewards`, without the two arguments it does not read. -/
def queueNewRewards (s : L2Coordinator) (sender : Address) (_fees _rewards : ℕ) :
    Tx L2Coordinator := do
  require (sender = s.booster) "!booster"
  require (s.bridgeDelegate ≠ 0) "!bridgeDelegate"
  let accBalRewards ← AuraMath.add s.accBalRewards _rewards
  let pendingNotifyFees ← AuraMath.add s.pendingNotifyFees _fees
  let balance := (s.tokens s.balToken).balanceOf s.self
  let t ← (s.tokens s.balToken).transfer s.self s.bridgeDelegate balance
  .ok { s with
    accBalRewards, pendingNotifyFees
    tokens := update s.tokens s.balToken t }

/-- `notifyFees` : the new state and the payload it sends. -/
def notifyFees (s : L2Coordinator) : Tx (L2Coordinator × Payload) := do
  let payload := Payload.fees s.pendingNotifyFees
  requireTrusted s.trustedRemoteLookup s.canonicalChainId
  .ok ({ s with pendingNotifyFees := 0 }, payload)

/-- `_nonblockingLzReceive`. -/
def _nonblockingLzReceive (s : L2Coordinator) : Payload → Tx L2Coordinator
  | .feesCallback cvxAmount => do
    let accAuraRewards ← AuraMath.add s.accAuraRewards cvxAmount
    .ok { s with accAuraRewards }
  | .fees _ => .ok s

/-- `AuraOFT` receives a transfer : it mints to the recipient. -/
def creditOft (s : L2Coordinator) (toAddressBytes : Bytes) (amount : ℕ) : Tx L2Coordinator := do
  let dst ← toAddress toAddressBytes
  let t ← (s.tokens s.auraOFT).mint dst amount
  .ok { s with tokens := update s.tokens s.auraOFT t }

/-! ## Calls -/

inductive Call where
  | transferOwnership (newOwner : Address)
  | renounceOwnership
  | setTrustedRemote (_srcChainId : ChainId)
  /-- `initialize`. -/
  | init (_booster _balToken : Address)
  | setBridgeDelegate (_bridgeDelegate : Address)
  | mint (_to : Address) (_amount : ℕ)
  | queueNewRewards (_fees _rewards : ℕ)
  | notifyFees
  deriving DecidableEq

/-- Run a call of `sender` on `chain` : the new state and the messages sent. -/
def exec (s : L2Coordinator) (chain : ChainId) (sender : Address) :
    Call → Tx (L2Coordinator × List Message)
  | .transferOwnership a => quiet (s.transferOwnership sender a)
  | .renounceOwnership => quiet (s.renounceOwnership sender)
  | .setTrustedRemote c => quiet (s.setTrustedRemote sender c)
  | .init b t => quiet (s.init sender b t)
  | .setBridgeDelegate a => quiet (s.setBridgeDelegate sender a)
  | .mint a n => quiet (s.mint sender a n)
  | .queueNewRewards n k => quiet (s.queueNewRewards sender n k)
  | .notifyFees => do
    let r ← s.notifyFees
    .ok (r.1, [.toL1 chain r.2])
where
  /-- A call that sends nothing. -/
  quiet (x : Tx L2Coordinator) : Tx (L2Coordinator × List Message) := do
    let s ← x
    .ok (s, [])

/-- The AURA that the contract holds. -/
def held (s : L2Coordinator) : ℕ :=
  (s.tokens s.auraOFT).balanceOf s.self

/-- The contract was just deployed. -/
structure Deployed (s : L2Coordinator) : Prop where
  self_ne : s.self ≠ 0
  booster : s.booster = 0
  accBalRewards : s.accBalRewards = 0
  pendingNotifyFees : s.pendingNotifyFees = 0
  accAuraRewards : s.accAuraRewards = 0

/-- Tokens move : nobody takes AURA from the contract, which approves no one. -/
def Elsewhere (s s' : L2Coordinator) : Prop :=
  ∃ tokens, s' = { s with tokens } ∧ s.held ≤ s'.held

end L2Coordinator

end Aura.Sidechain
