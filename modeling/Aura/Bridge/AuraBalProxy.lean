import Aura.Bridge.Protocol
import Aura.Compounder.SharePrice

/-!
# Bridge : AuraBalProxyOFT

`AuraBalProxyOFT` stakes the auraBAL it holds in the vault and sends the yield to the other
chains. `internalTotalSupply` is its own count of what is on the other chains.

The ledger of auraBAL is that of the vault, the ledgers of the other tokens are `tokens`. A
pool of extra rewards is known by the token it pays and by what it owes the proxy (`earned`),
which `getReward` pays out. Of the functions of the vault that `vaultExecute` can call, the
setting of the penalty is modelled. Two fields record the history and are read by no
function : `credits` and `rounded`.
-/

open Evm Function

namespace Aura.Bridge

open Compounder (Vault VaultCall)

/-- A pool of extra rewards of the vault. -/
structure ExtraReward where
  pool : Address
  rewardToken : Address
  deriving DecidableEq

structure HarvestToken where
  token : Address
  rewards : ℕ
  deriving DecidableEq

structure AuraBalProxy where
  /-- `block.timestamp`. -/
  now : ℕ
  /-- `address(this)`. -/
  self : Address
  /-- auraBAL. -/
  innerToken : Address
  vault : Vault
  tokens : Address → Erc20 Address
  extraRewards : List ExtraReward
  /-- Pool : what `getReward` would pay the proxy. -/
  earned : Address → ℕ
  internalTotalSupply : ℕ
  harvestSrcChainIds : List ChainId
  totalClaimable : Address → ℕ
  /-- Token, chain. -/
  claimable : Address → ChainId → ℕ
  rewardReceiver : ChainId → Address
  authorizedHarvesters : Address → Bool
  ofts : Address → Address
  /-- The recipients and amounts of the credits so far. -/
  credits : List (Address × ℕ)
  /-- What the deposits and withdrawals since the last harvest can have rounded away. -/
  rounded : ℕ

namespace AuraBalProxy

/-- The ledger of a token. -/
def ledger (s : AuraBalProxy) (token : Address) : Erc20 Address :=
  if token = s.innerToken then s.vault.underlying else s.tokens token

/-- Another ledger of a token. -/
def setLedger (s : AuraBalProxy) (token : Address) (t : Erc20 Address) : AuraBalProxy :=
  if token = s.innerToken then { s with vault := { s.vault with underlying := t } }
  else { s with tokens := update s.tokens token t }

/-- `IERC20(token).balanceOf(address(this))`. -/
def balance (s : AuraBalProxy) (token : Address) : ℕ :=
  (s.ledger token).balanceOf s.self

/-! ## Credit and debit -/

/-- What an operation of the proxy on the vault can round away. -/
def rounding (s : AuraBalProxy) (amount : ℕ) : ℕ :=
  if s.vault.totalSupply = 0 then 0
  else SharePool.rounding s.vault.totalSupply s.vault.totalUnderlying amount

/-- `_withdraw` : the penalty is lifted for the withdrawal. -/
def _withdraw (s : AuraBalProxy) (amount : ℕ) : Tx AuraBalProxy := do
  let withdrawalPenalty := s.vault.withdrawalPenalty
  let v ← s.vault.setWithdrawalPenalty s.self 0
  let r ← v.withdraw s.self amount s.self s.self
  let v ← r.1.setWithdrawalPenalty s.self withdrawalPenalty
  require (amount ≤ r.2) "!withdrawn"
  .ok { s with vault := v, rounded := s.rounded + s.rounding amount }

/-- `_stakeAll`. -/
def _stakeAll (s : AuraBalProxy) : Tx (AuraBalProxy × ℕ) := do
  let amount := s.balance s.innerToken
  let r ← s.vault.deposit s.self amount s.self
  .ok ({ s with vault := r.1, rounded := s.rounded + s.rounding amount }, amount)

/-- `_debitFrom` : what is staked counts, and not what was sent. -/
def _debitFrom (s : AuraBalProxy) (sender _from : Address) (_amount : ℕ) :
    Tx (AuraBalProxy × ℕ) := do
  let r ← ProxyOft._debitFrom (s.ledger s.innerToken) s.self sender _from _amount
  let r ← (s.setLedger s.innerToken r.1)._stakeAll
  let internalTotalSupply ← uadd 256 r.1.internalTotalSupply r.2
  .ok ({ r.1 with internalTotalSupply }, r.2)

/-- `_creditTo` : what the recipient gets counts, and not what was withdrawn. -/
def _creditTo (s : AuraBalProxy) (_toAddress : Address) (_amount : ℕ) :
    Tx (AuraBalProxy × ℕ) := do
  let s ← s._withdraw _amount
  let r ← ProxyOft._creditTo (s.ledger s.innerToken) s.self _toAddress _amount
  let s := s.setLedger s.innerToken r.1
  let internalTotalSupply ← usub s.internalTotalSupply r.2
  .ok ({ s with internalTotalSupply, credits := (_toAddress, _amount) :: s.credits }, r.2)

/-! ## Harvest rewards -/

/-- `IVirtualRewards(extraRewards).getReward()`. -/
def getReward (s : AuraBalProxy) (e : ExtraReward) : Tx AuraBalProxy := do
  let t ← (s.ledger e.rewardToken).transfer e.pool s.self (s.earned e.pool)
  .ok { s.setLedger e.rewardToken t with earned := update s.earned e.pool 0 }

/-- One round of the loop of `_processHarvestableTokens`. -/
def processExtraReward (r : AuraBalProxy × List HarvestToken) (e : ExtraReward) :
    Tx (AuraBalProxy × List HarvestToken) := do
  let s ← r.1.getReward e
  let rewardAmount ← AuraMath.sub (s.balance e.rewardToken) (s.totalClaimable e.rewardToken)
  .ok (s, r.2 ++ [⟨e.rewardToken, rewardAmount⟩])

/-- The auraBAL that the shares are worth beyond what is bridged or waits to be. -/
def underlyingRewards (s : AuraBalProxy) : Tx ℕ := do
  let underlyingBalance ← s.vault.balanceOfUnderlying s.self
  let x ← usub underlyingBalance s.internalTotalSupply
  usub x (s.totalClaimable s.innerToken)

/-- `_processHarvestableTokens`. -/
def _processHarvestableTokens (s : AuraBalProxy) : Tx (AuraBalProxy × List HarvestToken) := do
  let rewards ← s.underlyingRewards
  s.extraRewards.foldlM processExtraReward (s, [⟨s.innerToken, rewards⟩])

/-- What the inner loop of `harvest` accumulates. -/
structure Harvested where
  /-- `claimable[harvestToken.token]`. -/
  claimable : ChainId → ℕ
  totalHarvested : ℕ
  accUnderlying : ℕ

/-- One round of the inner loop of `harvest`, for one chain. -/
def harvestChain (rewards _totalUnderlyingSum : ℕ) (h : Harvested) (e : ChainId × ℕ) :
    Tx Harvested := do
  let x ← AuraMath.mul rewards e.2
  let amount ← AuraMath.div x _totalUnderlyingSum
  let totalHarvested ← uadd 256 h.totalHarvested amount
  let accUnderlying ← uadd 256 h.accUnderlying e.2
  let n ← uadd 256 (h.claimable e.1) amount
  .ok ⟨update h.claimable e.1 n, totalHarvested, accUnderlying⟩

/-- One round of the outer loop of `harvest`, for one token. The second component is
`accUnderlying`. -/
def harvestToken (_totalUnderlying : List ℕ) (_totalUnderlyingSum : ℕ)
    (r : AuraBalProxy × ℕ) (h : HarvestToken) : Tx (AuraBalProxy × ℕ) := do
  let s := r.1
  let d ← (s.harvestSrcChainIds.zip _totalUnderlying).foldlM
    (harvestChain h.rewards _totalUnderlyingSum) ⟨s.claimable h.token, 0, 0⟩
  let total ← uadd 256 (s.totalClaimable h.token) d.totalHarvested
  .ok ({ s with
    claimable := update s.claimable h.token d.claimable
    totalClaimable := update s.totalClaimable h.token total }, d.accUnderlying)

/-- `harvest`. The sum is checked in the last round, with the `accUnderlying` of that round. -/
def harvest (s : AuraBalProxy) (sender : Address) (_totalUnderlying : List ℕ)
    (_totalUnderlyingSum : ℕ) : Tx AuraBalProxy := do
  require (s.authorizedHarvesters sender = true) "!harvester"
  require (s.harvestSrcChainIds.length = _totalUnderlying.length) "!parity"
  let p ← s._processHarvestableTokens
  let r ← p.2.foldlM (harvestToken _totalUnderlying _totalUnderlyingSum) (p.1, 0)
  require (r.2 = _totalUnderlyingSum) "!sum"
  .ok { r.1 with rounded := 0 }

/-- `IERC20(_token).safeIncreaseAllowance(oft, reward)` and the pull of `reward` by the OFT
of the token. The proxy has no allowance from itself. -/
def sendReward (s : AuraBalProxy) (_token oft : Address) (reward : ℕ) : Tx AuraBalProxy := do
  let t := s.ledger _token
  let newAllowance ← uadd 256 (t.allowance s.self oft) reward
  let t ← t.approve s.self oft newAllowance
  require (oft ≠ s.self) "ERC20: transfer amount exceeds allowance"
  let t ← t.transferFrom oft s.self oft reward
  .ok (s.setLedger _token t)

/-- `processClaimable` : the new state and the messages. -/
def processClaimable (p : ProxyOft AuraBalProxy) (_token : Address) (_srcChainId : ChainId) :
    Tx (AuraBalProxy × List Message) := do
  p.guard.whenNotPaused
  let s := p.heir
  let receiver := s.rewardReceiver _srcChainId
  let reward := s.claimable _token _srcChainId
  let oft := s.ofts _token
  require (receiver ≠ 0) "0"
  require (0 < reward) "!reward"
  require (oft ≠ 0) "!oft"
  let total ← usub (s.totalClaimable _token) reward
  let s := { s with
    claimable := update s.claimable _token (update (s.claimable _token) _srcChainId 0)
    totalClaimable := update s.totalClaimable _token total }
  if _token = s.innerToken then do
    require (oft = s.self) "!oft"
    let internalTotalSupply ← uadd 256 s.internalTotalSupply reward
    requireTrusted p.trustedRemoteLookup _srcChainId
    .ok ({ s with internalTotalSupply },
      [⟨p.chain, _srcChainId, .send (encodePacked receiver) reward⟩])
  else do
    let s ← s.sendReward _token oft reward
    .ok (s, [])

/-! ## The heir -/

/-- The functions that `AuraBalProxyOFT` adds. -/
inductive Own where
  | harvest (_totalUnderlying : List ℕ) (_totalUnderlyingSum : ℕ)
  | processClaimable (_token : Address) (_srcChainId : ChainId)
  | setRewardReceiver (_srcChainId : ChainId) (_receiver : Address)
  | updateAuthorizedHarvesters (_harvester : Address) (_authorized : Bool)
  | setOFT (_token _oft : Address)
  | setHarvestSrcChainIds (_srcChainIds : List ChainId)
  /-- `vaultExecute` of `setWithdrawalPenalty(_penalty)`. -/
  | setWithdrawalPenalty (_penalty : ℕ)
  deriving DecidableEq

/-- A setting that only the owner of the proxy makes. -/
def byOwner (p : ProxyOft AuraBalProxy) (sender : Address) (s : AuraBalProxy) :
    Tx (AuraBalProxy × List Message) := do
  p.onlyOwner sender
  .ok (s, [])

/-- Run a function that `AuraBalProxyOFT` adds. -/
def execOwn (p : ProxyOft AuraBalProxy) (sender : Address) :
    Own → Tx (AuraBalProxy × List Message)
  | .harvest us sum => do
    let s ← p.heir.harvest sender us sum
    .ok (s, [])
  | .processClaimable token c => processClaimable p token c
  | .setRewardReceiver c a =>
    byOwner p sender { p.heir with rewardReceiver := update p.heir.rewardReceiver c a }
  | .updateAuthorizedHarvesters a b =>
    byOwner p sender { p.heir with authorizedHarvesters := update p.heir.authorizedHarvesters a b }
  | .setOFT token oft => byOwner p sender { p.heir with ofts := update p.heir.ofts token oft }
  | .setHarvestSrcChainIds cs => byOwner p sender { p.heir with harvestSrcChainIds := cs }
  | .setWithdrawalPenalty n => do
    p.onlyOwner sender
    let vault ← p.heir.vault.setWithdrawalPenalty p.heir.self n
    .ok ({ p.heir with vault }, [])

/-- Others use the vault, or time passes, the strategy and the pools gain, and tokens move,
but not away from the proxy : it approves only the vault and, for what it sends, the OFT of
the token. -/
inductive Elsewhere (s s' : AuraBalProxy) : Prop
  | vault (sender : Address) (c : VaultCall) (v : Vault) : sender ≠ s.self →
      s.vault.exec sender c = .ok v → s' = { s with vault := v } → Elsewhere s s'
  | moved (now : ℕ) (v : Vault) (tokens : Address → Erc20 Address) (earned : Address → ℕ) :
      s.now ≤ now → s.vault.Elsewhere v →
        s.vault.underlying.balanceOf s.self ≤ v.underlying.balanceOf s.self →
        (∀ k, (s.tokens k).balanceOf s.self ≤ (tokens k).balanceOf s.self) →
          s' = { s with now, vault := v, tokens, earned } → Elsewhere s s'

/-- The proxy was just deployed : it has counted nothing, and given nobody an allowance on
its shares of the vault. -/
structure Deployed (s : AuraBalProxy) : Prop where
  self_ne : s.self ≠ 0
  allowance : ∀ a, s.vault.shares.allowance s.self a = 0
  internalTotalSupply : s.internalTotalSupply = 0
  harvestSrcChainIds : s.harvestSrcChainIds = []
  totalClaimable : ∀ k, s.totalClaimable k = 0
  claimable : ∀ k c, s.claimable k c = 0
  credits : s.credits = []
  rounded : s.rounded = 0

instance : Heir AuraBalProxy where
  now s := s.now
  self s := s.self
  _debitFrom := AuraBalProxy._debitFrom
  _creditTo := AuraBalProxy._creditTo
  locker := none
  Call := Own
  exec := execOwn
  Elsewhere := AuraBalProxy.Elsewhere
  Deployed := AuraBalProxy.Deployed

/-- A proxy just deployed at the address 300, for a vault just deployed, with one pool of
extra rewards at 600 that pays the token 700. -/
def initial (gains : ℕ) : AuraBalProxy where
  now := 1
  self := 300
  innerToken := 200
  vault := .initial gains
  tokens _ := Erc20.single 600 (10 ^ 30) Erc20.single_supply_lt fun _ _ => 0
  extraRewards := [⟨600, 700⟩]
  earned _ := 0
  internalTotalSupply := 0
  harvestSrcChainIds := []
  totalClaimable _ := 0
  claimable _ _ := 0
  rewardReceiver _ := 0
  authorizedHarvesters _ := false
  ofts _ := 0
  credits := []
  rounded := 0

theorem initial_deployed (gains : ℕ) : AuraBalProxy.Deployed (.initial gains) :=
  ⟨show (300 : Address) ≠ 0 by decide, fun _ => rfl, rfl, rfl, fun _ => rfl, fun _ _ => rfl, rfl,
    rfl⟩

end AuraBalProxy

end Aura.Bridge
