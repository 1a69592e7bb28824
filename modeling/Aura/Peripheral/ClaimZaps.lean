import Aura.AuraMath

/-!
# Claim zaps

`AuraClaimZapV3` and `SidechainClaimZap` claim the rewards of an account from a list of
contracts, pull what was claimed and stake, lock, compound or bridge it for the account.

The contracts a zap calls are a parameter, `External`, which acts on the tokens, the ether and
a storage `rest` of its own that no zap reads. A zap logs what it pulls and calls.
-/

open Evm Function

namespace Aura.Peripheral

/-- The calls of a zap. -/
inductive Call where
  /-- `IRewardStaking(target).getReward(_account, _claimExtras)`. -/
  | getRewardAndExtras (target _account : Address) (_claimExtras : Bool)
  /-- `IRewardStaking(target).getReward(_account)`. -/
  | getReward (target _account : Address)
  /-- `IRewardStaking(target).getReward(_account, _token)`. -/
  | getTokenReward (target _account _token : Address)
  /-- `ICrvDepositorWrapper(target).deposit(_amount, _minOut, _lock, _stakeAddress)`. -/
  | depositCrv (target : Address) (_amount _minOut : ℕ) (_lock : Bool) (_stakeAddress : Address)
  /-- `IRewardPool4626(target).deposit(assets, receiver)`. -/
  | deposit (target : Address) (assets : ℕ) (receiver : Address)
  /-- `IRewardStaking(target).stakeFor(_account, _amount)`. -/
  | stakeFor (target _account : Address) (_amount : ℕ)
  /-- `IAuraLocker(target).lock(_account, _amount)`. -/
  | lock (target _account : Address) (_amount : ℕ)
  /-- `IAuraOFT(target).lock{value: value}(receiver, _cvxAmount, zroPaymentAddress)`. -/
  | lockOft (target : Address) (value : ℕ) (receiver : Address) (_cvxAmount : ℕ)
      (zroPaymentAddress : Address)
  /-- `IAuraOFT(target).sendFrom{value: value}(…)`. -/
  | sendFrom (target : Address) (value : ℕ) (_from : Address) (_dstChainId : ℕ)
      (_toAddress : Address) (_amount : ℕ) (_refundAddress _zroPaymentAddress : Address)
      (_adapterParams : List ℕ)
  /-- `payable(target).call{value: value}("")`. -/
  | send (target : Address) (value : ℕ)
  deriving DecidableEq

/-- What a zap logs. -/
inductive Entry where
  | pulled (_token : Address) (_balance : ℕ)
  | called (c : Call)
  deriving DecidableEq

structure World (σ : Type) where
  tokens : Address → Erc20 Address
  eth : Address → ℕ
  rest : σ

/-- The code of the contracts that a zap calls. -/
abbrev External (σ : Type) := Call → World σ → Tx (World σ)

/-- The world and the log of a zap, the latest entry last. -/
structure State (σ : Type) extends World σ where
  log : List Entry

variable {σ : Type}

namespace World

/-- `IERC20(_token).balanceOf(_account)`. -/
def balanceOf (w : World σ) (_token _account : Address) : ℕ :=
  (w.tokens _token).balanceOf _account

/-- Ether sent along with a call. -/
def pay (w : World σ) (src dst : Address) (value : ℕ) : Tx (World σ) := do
  require (value ≤ w.eth src) "insufficient balance"
  .ok { w with eth := move w.eth src dst value }

end World

/-- A call of a zap. -/
def perform (x : External σ) (c : Call) (s : State σ) : Tx (State σ) := do
  let w ← x c s.toWorld
  .ok { toWorld := w, log := s.log ++ [.called c] }

/-- Some calls, one after the other. -/
def performAll (x : External σ) (calls : List Call) (s : State σ) : Tx (State σ) :=
  calls.foldlM (fun s c => perform x c s) s

/-- A call of the zap `self` with ether. -/
def performWith (x : External σ) (self target : Address) (value : ℕ) (c : Call) (s : State σ) :
    Tx (State σ) := do
  let w ← s.pay self target value
  perform x c { s with toWorld := w }

/-- `_checkBalanceAndPullToken` of the zap `self`. -/
def _checkBalanceAndPullToken (self sender : Address) (s : State σ) (_token : Address)
    (_removeAmount _maxAmount : ℕ) : Tx (State σ × ℕ × Bool) := do
  let _balance ← AuraMath.sub (s.balanceOf _token sender) _removeAmount
  let _balance := AuraMath.min _balance _maxAmount
  if 0 < _balance then do
    let t ← (s.tokens _token).transferFrom self sender self _balance
    .ok ({ s with
      tokens := update s.tokens _token t
      log := s.log ++ [.pulled _token _balance] }, _balance, true)
  else .ok (s, _balance, false)

/-! ## AuraClaimZapV3 -/

structure AuraClaimZapV3 where
  /-- `address(this)`. -/
  self : Address
  crv : Address
  cvx : Address
  cvxCrv : Address
  crvDepositWrapper : Address
  cvxCrvRewards : Address
  locker : Address
  compounder : Address

namespace AuraClaimZapV3

structure ClaimRewardsAmounts where
  depositCrvMaxAmount : ℕ
  minAmountOut : ℕ
  depositCvxMaxAmount : ℕ
  depositCvxCrvMaxAmount : ℕ

structure Options where
  claimCvxCrv : Bool
  claimLockedCvx : Bool
  lockCvxCrv : Bool
  lockCrvDeposit : Bool
  useAllWalletFunds : Bool
  useCompounder : Bool
  lockCvx : Bool

/-- `_callRelockRewards`. -/
def _callRelockRewards (options : Options) : Bool :=
  options.lockCvxCrv || options.lockCrvDeposit || options.useCompounder || options.lockCvx

/-- The claims of `claimRewards`. -/
def claim (z : AuraClaimZapV3) (x : External σ) (s : State σ) (sender : Address)
    (rewardContracts extraRewardContracts tokenRewardContracts tokenRewardTokens : List Address)
    (options : Options) : Tx (State σ) := do
  let s ← performAll x (rewardContracts.map (.getRewardAndExtras · sender true)) s
  let s ← performAll x (extraRewardContracts.map (.getReward · sender)) s
  let s ← performAll x (List.zipWith (.getTokenReward · sender) tokenRewardContracts
    tokenRewardTokens) s
  let s ← (if options.claimCvxCrv = true then
    perform x (.getRewardAndExtras z.cvxCrvRewards sender true) s else .ok s)
  if options.claimLockedCvx = true then perform x (.getReward z.locker sender) s else .ok s

/-- `_relockRewards`. -/
def _relockRewards (z : AuraClaimZapV3) (x : External σ) (s : State σ) (sender : Address)
    (removeCrvBalance removeCvxBalance removeCvxCrvBalance : ℕ) (amounts : ClaimRewardsAmounts)
    (options : Options) : Tx (State σ) := do
  let s ← (if 0 < amounts.depositCrvMaxAmount then do
      let r ← _checkBalanceAndPullToken z.self sender s z.crv removeCrvBalance
        amounts.depositCrvMaxAmount
      if r.2.2 = true then
        perform x (.depositCrv z.crvDepositWrapper r.2.1 amounts.minAmountOut
          options.lockCrvDeposit 0) r.1
      else .ok r.1
    else .ok s)
  let s ← (if options.lockCvxCrv = true then do
      let r ← _checkBalanceAndPullToken z.self sender s z.cvxCrv removeCvxCrvBalance
        amounts.depositCvxCrvMaxAmount
      .ok r.1
    else .ok s)
  let cvxCrvBalanceToLock := s.balanceOf z.cvxCrv z.self
  let s ← (if 0 < cvxCrvBalanceToLock then
      if options.useCompounder = true then
        perform x (.deposit z.compounder cvxCrvBalanceToLock sender) s
      else perform x (.stakeFor z.cvxCrvRewards sender cvxCrvBalanceToLock) s
    else .ok s)
  if options.lockCvx = true then do
    let r ← _checkBalanceAndPullToken z.self sender s z.cvx removeCvxBalance
      amounts.depositCvxMaxAmount
    if r.2.2 = true then perform x (.lock z.locker sender r.2.1) r.1 else .ok r.1
  else .ok s

/-- `claimRewards`. -/
def claimRewards (z : AuraClaimZapV3) (x : External σ) (s : State σ) (sender : Address)
    (rewardContracts extraRewardContracts tokenRewardContracts tokenRewardTokens : List Address)
    (amounts : ClaimRewardsAmounts) (options : Options) : Tx (State σ) := do
  require (tokenRewardContracts.length = tokenRewardTokens.length) "!parity"
  let remove (_token : Address) : ℕ :=
    if options.useAllWalletFunds = false ∧ _callRelockRewards options = true then
      s.balanceOf _token sender
    else 0
  let crvBalance := remove z.crv
  let cvxBalance := remove z.cvx
  let cvxCrvBalance := remove z.cvxCrv
  let s ← z.claim x s sender rewardContracts extraRewardContracts tokenRewardContracts
    tokenRewardTokens options
  if _callRelockRewards options = true then
    z._relockRewards x s sender crvBalance cvxBalance cvxCrvBalance amounts options
  else .ok s

end AuraClaimZapV3

/-! ## SidechainClaimZap -/

structure SidechainClaimZap where
  /-- `address(this)`. -/
  self : Address
  cvx : Address
  cvxCrv : Address
  compounder : Address
  canonicalChainID : ℕ

namespace SidechainClaimZap

structure ClaimRewardsAmounts where
  lockCvxMaxAmount : ℕ
  depositCvxCrvMaxAmount : ℕ
  bridgeCvxMaxAmount : ℕ

structure Options where
  useAllWalletFunds : Bool
  sendCvxToL1 : Bool
  lockCvxL1 : Bool
  useCompounder : Bool
  refundEth : Bool
  overrideL1Receiver : Bool
  l1Receiever : Address
  zro : Address
  adapterParams : List ℕ

/-- `_callOptions`. -/
def _callOptions (options : Options) : Bool :=
  options.lockCvxL1 || options.sendCvxToL1 || options.useCompounder

/-- The claims of `claimRewards`. -/
def claim (x : External σ) (s : State σ) (sender : Address)
    (rewardContracts extraRewardContracts tokenRewardContracts tokenRewardTokens : List Address) :
    Tx (State σ) := do
  let s ← performAll x (rewardContracts.map (.getRewardAndExtras · sender true)) s
  let s ← performAll x (extraRewardContracts.map (.getReward · sender)) s
  performAll x (List.zipWith (.getTokenReward · sender) tokenRewardContracts tokenRewardTokens) s

/-- The receiver on L1. -/
def l1receiver (sender : Address) (options : Options) : Address :=
  if options.overrideL1Receiver = true then options.l1Receiever else sender

/-- `_handleRewards`. -/
def _handleRewards (z : SidechainClaimZap) (x : External σ) (s : State σ) (sender : Address)
    (value removeCvxBalance removeCvxCrvBalance : ℕ) (zroPaymentAddress : Address)
    (amounts : ClaimRewardsAmounts) (options : Options) : Tx (State σ) := do
  let _l1receiver := l1receiver sender options
  let s ← (if options.lockCvxL1 = true then do
      let r ← _checkBalanceAndPullToken z.self sender s z.cvx removeCvxBalance
        amounts.lockCvxMaxAmount
      if r.2.2 = true then
        performWith x z.self z.cvx value (.lockOft z.cvx value _l1receiver r.2.1 zroPaymentAddress)
          r.1
      else .ok r.1
    else if options.sendCvxToL1 = true then do
      let r ← _checkBalanceAndPullToken z.self sender s z.cvx removeCvxBalance
        amounts.bridgeCvxMaxAmount
      if r.2.2 = true then
        performWith x z.self z.cvx value (.sendFrom z.cvx value z.self z.canonicalChainID
          _l1receiver r.2.1 sender options.zro options.adapterParams) r.1
      else .ok r.1
    else .ok s)
  if options.useCompounder = true ∧ z.compounder ≠ 0 ∧ z.cvxCrv ≠ 0 then do
    let r ← _checkBalanceAndPullToken z.self sender s z.cvxCrv removeCvxCrvBalance
      amounts.depositCvxCrvMaxAmount
    if r.2.2 = true then perform x (.deposit z.compounder r.2.1 sender) r.1 else .ok r.1
  else .ok s

/-- `claimRewards`, called with `value` ether. -/
def claimRewards (z : SidechainClaimZap) (x : External σ) (s : State σ) (sender : Address)
    (value : ℕ) (zroPaymentAddress : Address)
    (rewardContracts extraRewardContracts tokenRewardContracts tokenRewardTokens : List Address)
    (amounts : ClaimRewardsAmounts) (options : Options) : Tx (State σ) := do
  let w ← s.pay sender z.self value
  let s := { s with toWorld := w }
  require (tokenRewardContracts.length = tokenRewardTokens.length) "!parity"
  let snapshot := options.useAllWalletFunds = false ∧ _callOptions options = true
  let cvxBalance := if snapshot then s.balanceOf z.cvx sender else 0
  let cvxCrvBalance := if snapshot ∧ z.cvxCrv ≠ 0 then s.balanceOf z.cvxCrv sender else 0
  let s ← claim x s sender rewardContracts extraRewardContracts tokenRewardContracts
    tokenRewardTokens
  let s ← (if _callOptions options = true then
      z._handleRewards x s sender value cvxBalance cvxCrvBalance zroPaymentAddress amounts options
    else .ok s)
  if options.refundEth = true then
    let amount := s.eth z.self
    match performWith x z.self sender amount (.send sender amount) s with
    | .ok s => .ok s
    | .error _ => .error (.reason "!refund")
  else .ok s

end SidechainClaimZap

end Aura.Peripheral
