import Aura.AuraMath
import Aura.SharePool

/-!
# GenericUnionVault

The vault of `GenericVault.sol` : an ERC4626 vault whose assets are staked by a strategy.

The strategy is modelled by what the vault relies on : `stake` and `withdraw` move
`totalUnderlying` by the given amount, and a harvest adds what the strategy has gained. The
ledger of the underlying token is part of the state, with the strategy standing for
everything it stakes in. The extra reward pools, which the shares are mirrored in, never
change a balance of the vault and are left out.
-/

open Evm Function

namespace Aura.Compounder

def maxWithdrawalPenalty : ℕ := 150

def feeDenominator : ℕ := 10000

/-- The vault, its strategy and the ledger of the underlying token. -/
structure Vault where
  /-- `address(this)`. -/
  self : Address
  owner : Address
  strategy : Address
  withdrawalPenalty : ℕ
  /-- The token that the vault is. -/
  shares : Erc20 Address
  underlying : Erc20 Address
  /-- `IStrategy(strategy).totalUnderlying()`. -/
  totalUnderlying : ℕ
  /-- What a harvest of the strategy adds, of the tokens that the ledger has for it already. -/
  gains : ℕ

namespace Vault

def totalSupply (v : Vault) : ℕ :=
  v.shares.totalSupply

def notToZeroAddress (_to : Address) : Tx Unit :=
  require (_to ≠ 0) "Invalid address!"

/-! ## The strategy -/

/-- `IStrategy(strategy).stake(_amount)`. -/
def stake (v : Vault) (_amount : ℕ) : Tx Vault := do
  let totalUnderlying ← uadd 256 v.totalUnderlying _amount
  .ok { v with totalUnderlying }

/-- `IStrategy(strategy).withdraw(_amount)`. -/
def unstake (v : Vault) (_amount : ℕ) : Tx Vault := do
  let totalUnderlying ← usub v.totalUnderlying _amount
  let underlying ← v.underlying.transfer v.strategy v.self _amount
  .ok { v with totalUnderlying, underlying }

/-- `harvest`. -/
def harvest (v : Vault) : Tx Vault := do
  let totalUnderlying ← uadd 256 v.totalUnderlying v.gains
  .ok { v with totalUnderlying, gains := 0 }

/-! ## Deposits and withdrawals -/

def setWithdrawalPenalty (v : Vault) (sender : Address) (_penalty : ℕ) : Tx Vault := do
  require (v.owner = sender) "Ownable: caller is not the owner"
  require (_penalty ≤ maxWithdrawalPenalty) ""
  .ok { v with withdrawalPenalty := _penalty }

def balanceOfUnderlying (v : Vault) (user : Address) : Tx ℕ := do
  require (0 < v.totalSupply) "No users"
  let x ← umul 256 (v.shares.balanceOf user) v.totalUnderlying
  udiv x v.totalSupply

/-- The shares issued in proportion of a deposit to the pool. -/
def sharesFor (v : Vault) (_amount : ℕ) : Tx ℕ :=
  if v.totalSupply = 0 then .ok _amount
  else do
    let x ← umul 256 _amount v.totalSupply
    udiv x v.totalUnderlying

def deposit (v : Vault) (sender : Address) (_amount : ℕ) (_receiver : Address) :
    Tx (Vault × ℕ) := do
  notToZeroAddress _receiver
  require (0 < _amount) "Deposit too small"
  let shares ← v.sharesFor _amount
  let underlying ← v.underlying.transferFrom v.self sender v.strategy _amount
  let v ← { v with underlying }.stake _amount
  let t ← v.shares.mint _receiver shares
  .ok ({ v with shares := t }, shares)

def _getWithdrawalPenalty (v : Vault) (_amount : ℕ) : Tx ℕ := do
  let x ← umul 256 _amount v.withdrawalPenalty
  udiv x feeDenominator

/-- The end of `_withdraw`, after the shares are burnt : the last to withdraw takes all,
the others pay a penalty that stays staked. -/
def payOut (v : Vault) (amount : ℕ) : Tx (Vault × ℕ) :=
  if v.totalSupply = 0 then do
    let v ← v.harvest
    let v ← v.unstake v.totalUnderlying
    .ok (v, v.underlying.balanceOf v.self)
  else do
    let _penalty ← v._getWithdrawalPenalty amount
    let _withdrawable ← usub amount _penalty
    let v ← v.unstake _withdrawable
    .ok (v, _withdrawable)

def _withdraw (v : Vault) (_from : Address) (_shares : ℕ) : Tx (Vault × ℕ) := do
  require (0 < v.totalSupply) ""
  let x ← umul 256 _shares v.totalUnderlying
  let amount ← udiv x v.totalSupply
  let shares ← v.shares.burn _from _shares
  { v with shares }.payOut amount

/-- The check of `redeem` that `sender` may burn shares of `_owner`. -/
def spendShares (v : Vault) (sender _owner : Address) (_shares : ℕ) : Tx (Erc20 Address) :=
  if sender ≠ _owner then do
    let currentAllowance := v.shares.allowance _owner sender
    require (_shares ≤ currentAllowance) "ERC4626: redeem exceeds allowance"
    v.shares.approve _owner sender (currentAllowance - _shares)
  else .ok v.shares

def redeem (v : Vault) (sender : Address) (_shares : ℕ) (_receiver _owner : Address) :
    Tx (Vault × ℕ) := do
  notToZeroAddress _receiver
  notToZeroAddress _owner
  let shares ← v.spendShares sender _owner _shares
  let r ← { v with shares }._withdraw _owner _shares
  let underlying ← r.1.underlying.transfer r.1.self _receiver r.2
  .ok ({ r.1 with underlying }, r.2)

/-! ## EIP-4626 -/

/-- `a * b / c`, rounded up if `isRoundUp`. -/
def mulDiv (a b c : ℕ) (isRoundUp : Bool) : Tx ℕ := do
  let x ← umul 256 a b
  let y ← udiv x c
  if isRoundUp = true ∧ 0 < a * b % c then uadd 256 y 1 else .ok y

def _convertToShares (v : Vault) (_assets : ℕ) (isRoundUp : Bool) : Tx ℕ :=
  if v.totalSupply = 0 then .ok _assets
  else mulDiv _assets v.totalSupply v.totalUnderlying isRoundUp

def _convertToAssets (v : Vault) (_shares : ℕ) (isRoundUp : Bool) : Tx ℕ :=
  if v.totalSupply = 0 then .ok _shares
  else mulDiv _shares v.totalUnderlying v.totalSupply isRoundUp

def previewDeposit (v : Vault) (_assets : ℕ) : Tx ℕ :=
  v._convertToShares _assets false

def previewMint (v : Vault) (_shares : ℕ) : Tx ℕ :=
  v._convertToAssets _shares true

def mint (v : Vault) (sender : Address) (_shares : ℕ) (_receiver : Address) : Tx (Vault × ℕ) := do
  let assets ← v.previewMint _shares
  v.deposit sender assets _receiver

def previewWithdraw (v : Vault) (_assets : ℕ) : Tx ℕ := do
  let x ← umul 256 feeDenominator _assets
  let y ← usub feeDenominator v.withdrawalPenalty
  let z ← udiv x y
  v._convertToShares z true

def withdraw (v : Vault) (sender : Address) (_assets : ℕ) (_receiver _owner : Address) :
    Tx (Vault × ℕ) := do
  let shares ← v.previewWithdraw _assets
  v.redeem sender shares _receiver _owner

def maxRedeem (v : Vault) (_owner : Address) : ℕ :=
  v.shares.balanceOf _owner

def previewRedeem (v : Vault) (_shares : ℕ) : Tx ℕ := do
  let amount ← v._convertToAssets _shares false
  let penalty ← v._getWithdrawalPenalty amount
  usub amount penalty

def maxWithdraw (v : Vault) (_owner : Address) : Tx ℕ :=
  v.previewRedeem (v.maxRedeem _owner)

end Vault

/-! ## Calls -/

/-- The functions that change the state. -/
inductive VaultCall where
  | deposit (_amount : ℕ) (_receiver : Address)
  | mint (_shares : ℕ) (_receiver : Address)
  | redeem (_shares : ℕ) (_receiver _owner : Address)
  | withdraw (_assets : ℕ) (_receiver _owner : Address)
  | harvest
  | setWithdrawalPenalty (_penalty : ℕ)
  | transfer (recipient : Address) (amount : ℕ)
  | approve (spender : Address) (amount : ℕ)
  | transferFrom (owner recipient : Address) (amount : ℕ)
  deriving DecidableEq

namespace Vault

/-- The vault after a call that also returns a value. -/
def state (x : Tx (Vault × ℕ)) : Tx Vault := do
  let r ← x
  .ok r.1

/-- The vault after a change of its shares. -/
def withShares (v : Vault) (x : Tx (Erc20 Address)) : Tx Vault := do
  let shares ← x
  .ok { v with shares }

/-- Run a call of `sender`. -/
def exec (v : Vault) (sender : Address) : VaultCall → Tx Vault
  | .deposit a r => state (v.deposit sender a r)
  | .mint n r => state (v.mint sender n r)
  | .redeem n r o => state (v.redeem sender n r o)
  | .withdraw a r o => state (v.withdraw sender a r o)
  | .harvest => v.harvest
  | .setWithdrawalPenalty p => v.setWithdrawalPenalty sender p
  | .transfer r n => v.withShares (v.shares.transfer sender r n)
  | .approve s n => v.withShares (v.shares.approve sender s n)
  | .transferFrom o r n => v.withShares (v.shares.transferFrom sender o r n)

end Vault

end Aura.Compounder
