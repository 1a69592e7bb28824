import Aura.Compounder.MaxWithdraw
import Aura.Evm.Others
import Aura.Evm.Run

/-!
# AuraBalVault over SimpleStrategy

The vault of the sidechains with everything it rests on : the permissions to harvest, the
extra rewards, and `SimpleStrategy`, which keeps the underlying token itself, so that its
total is its balance. `GenericUnionVault` was modelled over a strategy that is known by what
it does (`Vault`). This vault refines it (`simple_refines`) as long as the owner does not add
the underlying token itself as an extra reward : a harvest would then send everything that is
deposited to the pool of that reward (`harvest_total`).

The pools of the extra rewards come from a factory that is not part of this repository. They
are a parameter (`Pools`) : they are told of every transfer of shares before it happens, and
may refuse it, but they only change what is their own.

Holders are never locked in, whoever may harvest (`redeem_always`), unless a pool refuses to
be told. The harvest of the last one to redeem is exempt from the permission.
-/

open Evm Function

namespace Aura.Compounder.Simple

/-- The functions of the reward pools that the vault and the strategy call. `P` is what the
pools keep, all of them together. -/
structure Pools (P : Type) where
  /-- `IBasicRewards(pool).withdraw(account, amount)`. -/
  withdraw (pool account : Address) (amount : ℕ) (p : P) : Tx P
  /-- `IBasicRewards(pool).stake(account, amount)`. -/
  stake (pool account : Address) (amount : ℕ) (p : P) : Tx P
  /-- `IVirtualRewards(pool).queueNewRewards(amount)`. -/
  queueNewRewards (pool : Address) (amount : ℕ) (p : P) : Tx P

/-- The immutables of the vault, the strategy and the reward pools. -/
structure Immutables (P : Type) where
  /-- The address of the vault. -/
  vault : Address
  strategy : Address
  underlying : Address
  /-- `IVirtualRewards(…).rewardToken()`. -/
  rewardToken : Address → Address
  pools : Pools P

/-- The storage of the vault, after `setStrategy`. -/
structure AuraBalVault where
  owner : Address
  withdrawalPenalty : ℕ
  shares : Erc20 Address
  extraRewards : List Address
  isExtraReward : Address → Bool
  isHarvestPermissioned : Bool
  authorizedHarvesters : Address → Bool

structure World (P : Type) where
  vault : AuraBalVault
  tokens : Address → Erc20 Address
  pools : P

variable {P : Type} (d : Immutables P)

/-! ## SimpleStrategy -/

namespace SimpleStrategy

def totalUnderlying (w : World P) : ℕ :=
  (w.tokens d.underlying).balanceOf d.strategy

def withdraw (w : World P) (sender : Address) (_amount : ℕ) : Tx (World P) := do
  require (d.vault = sender) "Vault calls only"
  let t ← (w.tokens d.underlying).transfer d.strategy d.vault _amount
  .ok { w with tokens := update w.tokens d.underlying t }

/-- A round of the loop of `harvest`. -/
def forwardReward (w : World P) (rewards : Address) : Tx (World P) :=
  let token := d.rewardToken rewards
  let balance := (w.tokens token).balanceOf d.strategy
  if 0 < balance then do
    let t ← (w.tokens token).transfer d.strategy rewards balance
    let pools ← d.pools.queueNewRewards rewards balance w.pools
    .ok { w with tokens := update w.tokens token t, pools }
  else .ok w

def harvest (w : World P) (sender : Address) : Tx (World P) := do
  require (d.vault = sender) "Vault calls only"
  w.vault.extraRewards.foldlM (forwardReward d) w

end SimpleStrategy

/-! ## The vault -/

/-- The world with other shares. -/
def World.withShares (w : World P) (shares : Erc20 Address) : World P :=
  { w with vault := { w.vault with shares } }

/-- The hook that the shares call before they move, which mirrors them in the pools. -/
def _beforeTokenTransfer (w : World P) (_from _to : Address) (amount : ℕ) : Tx (World P) := do
  let p ← w.vault.extraRewards.foldlM (fun p r => d.pools.withdraw r _from amount p) w.pools
  let pools ← w.vault.extraRewards.foldlM (fun p r => d.pools.stake r _to amount p) p
  .ok { w with pools }

/-- A change of the shares, after the hook for it. -/
def changeShares (w : World P) (_from _to : Address) (amount : ℕ)
    (f : Erc20 Address → Tx (Erc20 Address)) : Tx (World P) := do
  let w ← _beforeTokenTransfer d w _from _to amount
  let shares ← f w.vault.shares
  .ok (w.withShares shares)

def _mint (w : World P) (account : Address) (amount : ℕ) : Tx (World P) :=
  changeShares d w 0 account amount fun t => t.mint account amount

def _burn (w : World P) (account : Address) (amount : ℕ) : Tx (World P) :=
  changeShares d w account 0 amount fun t => t.burn account amount

def transfer (w : World P) (sender recipient : Address) (amount : ℕ) : Tx (World P) :=
  changeShares d w sender recipient amount fun t => t.transfer sender recipient amount

def transferFrom (w : World P) (sender owner recipient : Address) (amount : ℕ) :
    Tx (World P) :=
  changeShares d w owner recipient amount fun t => t.transferFrom sender owner recipient amount

def approve (w : World P) (sender spender : Address) (amount : ℕ) : Tx (World P) := do
  let shares ← w.vault.shares.approve sender spender amount
  .ok (w.withShares shares)

/-- The vault as its views see it. -/
def asVault (w : World P) : Vault where
  self := d.vault
  owner := w.vault.owner
  strategy := d.strategy
  withdrawalPenalty := w.vault.withdrawalPenalty
  shares := w.vault.shares
  underlying := w.tokens d.underlying
  totalUnderlying := SimpleStrategy.totalUnderlying d w
  gains := 0

/-- `harvest` of `AuraBalVault`. The strategy does not use `_minAmountOut`. -/
def harvest (w : World P) (sender : Address) (_minAmountOut : ℕ) : Tx (World P) := do
  require (w.vault.isHarvestPermissioned = false ∨ w.vault.authorizedHarvesters sender = true ∨
    w.vault.shares.totalSupply = 0) "permissioned harvest"
  SimpleStrategy.harvest d w d.vault

def deposit (w : World P) (sender : Address) (_amount : ℕ) (_receiver : Address) :
    Tx (World P × ℕ) := do
  Vault.notToZeroAddress _receiver
  require (0 < _amount) "Deposit too small"
  let n ← (asVault d w).sharesFor _amount
  let t ← (w.tokens d.underlying).transferFrom d.vault sender d.strategy _amount
  -- `stake` of the strategy is silent
  let w ← _mint d { w with tokens := update w.tokens d.underlying t } _receiver n
  .ok (w, n)

/-- The end of `_withdraw`, after the shares are burnt. -/
def payOut (w : World P) (sender : Address) (amount : ℕ) : Tx (World P × ℕ) :=
  if w.vault.shares.totalSupply = 0 then do
    let w ← harvest d w sender 0
    let w ← SimpleStrategy.withdraw d w d.vault (SimpleStrategy.totalUnderlying d w)
    .ok (w, (w.tokens d.underlying).balanceOf d.vault)
  else do
    let _penalty ← (asVault d w)._getWithdrawalPenalty amount
    let _withdrawable ← usub amount _penalty
    let w ← SimpleStrategy.withdraw d w d.vault _withdrawable
    .ok (w, _withdrawable)

def _withdraw (w : World P) (sender _from : Address) (_shares : ℕ) : Tx (World P × ℕ) := do
  require (0 < w.vault.shares.totalSupply) ""
  let x ← umul 256 _shares (SimpleStrategy.totalUnderlying d w)
  let amount ← udiv x w.vault.shares.totalSupply
  let w ← _burn d w _from _shares
  payOut d w sender amount

def redeem (w : World P) (sender : Address) (_shares : ℕ) (_receiver _owner : Address) :
    Tx (World P × ℕ) := do
  Vault.notToZeroAddress _receiver
  Vault.notToZeroAddress _owner
  let shares ← (asVault d w).spendShares sender _owner _shares
  let r ← _withdraw d (w.withShares shares) sender _owner _shares
  let t ← (r.1.tokens d.underlying).transfer d.vault _receiver r.2
  .ok ({ r.1 with tokens := update r.1.tokens d.underlying t }, r.2)

def mint (w : World P) (sender : Address) (_shares : ℕ) (_receiver : Address) :
    Tx (World P × ℕ) := do
  let assets ← (asVault d w).previewMint _shares
  deposit d w sender assets _receiver

def withdraw (w : World P) (sender : Address) (_assets : ℕ) (_receiver _owner : Address) :
    Tx (World P × ℕ) := do
  let shares ← (asVault d w).previewWithdraw _assets
  redeem d w sender shares _receiver _owner

/-- `onlyOwner`. -/
def onlyOwner (w : World P) (sender : Address) : Tx Unit :=
  require (w.vault.owner = sender) "Ownable: caller is not the owner"

def setWithdrawalPenalty (w : World P) (sender : Address) (_penalty : ℕ) : Tx (World P) := do
  onlyOwner w sender
  require (_penalty ≤ maxWithdrawalPenalty) ""
  .ok { w with vault := { w.vault with withdrawalPenalty := _penalty } }

def setHarvestPermissions (w : World P) (sender : Address) (_status : Bool) : Tx (World P) := do
  onlyOwner w sender
  .ok { w with vault := { w.vault with isHarvestPermissioned := _status } }

def updateAuthorizedHarvesters (w : World P) (sender _harvester : Address)
    (_authorized : Bool) : Tx (World P) := do
  onlyOwner w sender
  let authorizedHarvesters := update w.vault.authorizedHarvesters _harvester _authorized
  .ok { w with vault := { w.vault with authorizedHarvesters } }

/-- `addExtraReward`, with the pool that the factory creates. -/
def addExtraReward (w : World P) (sender _reward extraReward : Address) : Tx (World P) := do
  onlyOwner w sender
  Vault.notToZeroAddress _reward
  require (w.vault.extraRewards.length < 12) "too many rewards"
  require (w.vault.isExtraReward _reward = false) "reward exists"
  require (d.strategy ≠ 0) "strategy not set"
  let reward := d.rewardToken extraReward
  let extraRewards := w.vault.extraRewards ++ [extraReward]
  let isExtraReward := update w.vault.isExtraReward reward true
  .ok { w with vault := { w.vault with extraRewards, isExtraReward } }

def clearExtraRewards (w : World P) (sender : Address) : Tx (World P) := do
  onlyOwner w sender
  let isExtraReward := w.vault.extraRewards.foldl
    (fun f extraReward => update f (d.rewardToken extraReward) false) w.vault.isExtraReward
  .ok { w with vault := { w.vault with extraRewards := [], isExtraReward } }

/-! ## Runs -/

/-- The functions of the vault and of the strategy that write. -/
inductive Call where
  | deposit (_amount : ℕ) (_receiver : Address)
  | mint (_shares : ℕ) (_receiver : Address)
  | redeem (_shares : ℕ) (_receiver _owner : Address)
  | withdraw (_assets : ℕ) (_receiver _owner : Address)
  | harvest (_minAmountOut : ℕ)
  | setWithdrawalPenalty (_penalty : ℕ)
  | setHarvestPermissions (_status : Bool)
  | updateAuthorizedHarvesters (_harvester : Address) (_authorized : Bool)
  | addExtraReward (_reward extraReward : Address)
  | clearExtraRewards
  | transfer (recipient : Address) (amount : ℕ)
  | approve (spender : Address) (amount : ℕ)
  | transferFrom (owner recipient : Address) (amount : ℕ)
  /-- `withdraw` of the strategy. -/
  | strategyWithdraw (_amount : ℕ)
  /-- `harvest` of the strategy. -/
  | strategyHarvest
  deriving DecidableEq

variable {d}

/-- The world after a call that also returns a value. -/
def state (x : Tx (World P × ℕ)) : Tx (World P) := do
  let r ← x
  .ok r.1

variable (d) in
/-- Run a call of `sender`. -/
def exec (w : World P) (sender : Address) : Call → Tx (World P)
  | .deposit a r => state (deposit d w sender a r)
  | .mint n r => state (mint d w sender n r)
  | .redeem n r o => state (redeem d w sender n r o)
  | .withdraw a r o => state (withdraw d w sender a r o)
  | .harvest n => harvest d w sender n
  | .setWithdrawalPenalty p => setWithdrawalPenalty w sender p
  | .setHarvestPermissions b => setHarvestPermissions w sender b
  | .updateAuthorizedHarvesters a b => updateAuthorizedHarvesters w sender a b
  | .addExtraReward r p => addExtraReward d w sender r p
  | .clearExtraRewards => clearExtraRewards d w sender
  | .transfer r n => transfer d w sender r n
  | .approve s n => approve w sender s n
  | .transferFrom o r n => transferFrom d w sender o r n
  | .strategyWithdraw n => SimpleStrategy.withdraw d w sender n
  | .strategyHarvest => SimpleStrategy.harvest d w sender

variable (d) in
/-- Others use the tokens, and the pools change. -/
structure Elsewhere (w w' : World P) : Prop where
  vault : w'.vault = w.vault
  underlying : Erc20.Spends d.strategy (w.tokens d.underlying) (w'.tokens d.underlying)

variable (d) in
/-- The vault was just deployed and got its strategy, which has approved nobody. -/
structure Deployed (w : World P) : Prop where
  vault_ne : d.vault ≠ 0
  strategy_ne : d.strategy ≠ 0
  strategy_ne_vault : d.strategy ≠ d.vault
  penalty : w.vault.withdrawalPenalty = 100
  shares : w.vault.shares.totalSupply = 0
  extraRewards : w.vault.extraRewards = []
  unapproved : (w.tokens d.underlying).Unapproved d.strategy

variable (d) in
/-- The vault with its strategy and its surroundings. -/
def system : System (World P) Address Call where
  now _ := 0
  IsCaller _ a := a ≠ 0 ∧ a ≠ d.vault ∧ a ≠ d.strategy
  exec := exec d
  Elsewhere := Elsewhere d
  Deployed := Deployed d

instance (w : World P) (a : Address) : Decidable ((system d).IsCaller w a) :=
  inferInstanceAs (Decidable (a ≠ 0 ∧ a ≠ d.vault ∧ a ≠ d.strategy))

variable {w w' : World P} {sender owner receiver : Address} {a m n x : ℕ}

/-! ## What the strategy does -/

variable (d) in
/-- The underlying token is not an extra reward, and the strategy has approved nobody. -/
structure Sound (w : World P) : Prop where
  vault_ne : d.vault ≠ 0
  strategy_ne : d.strategy ≠ 0
  strategy_ne_vault : d.strategy ≠ d.vault
  penalty : w.vault.withdrawalPenalty ≤ maxWithdrawalPenalty
  extraRewards : ∀ p ∈ w.vault.extraRewards, d.rewardToken p ≠ d.underlying
  unapproved : (w.tokens d.underlying).Unapproved d.strategy

/-- Other shares, or another ledger of the underlying token, are as sound. -/
theorem Sound.of_eq (h : Sound d w) (hp : w'.vault.withdrawalPenalty = w.vault.withdrawalPenalty)
    (he : w'.vault.extraRewards = w.vault.extraRewards)
    (hu : (w'.tokens d.underlying).Unapproved d.strategy) : Sound d w' :=
  ⟨h.vault_ne, h.strategy_ne, h.strategy_ne_vault, hp ▸ h.penalty, he ▸ h.extraRewards, hu⟩

/-- The vault takes out what it asks for. -/
theorem withdraw_refines (h : Sound d w)
    (hx : SimpleStrategy.withdraw d w d.vault n = .ok w') :
    (asVault d w).unstake n = .ok (asVault d w') ∧ Sound d w' := by
  obtain ⟨-, hx⟩ := require_bind_eq_ok.1 hx
  obtain ⟨t, ht, hx⟩ := bind_eq_ok.1 hx
  cases hx
  obtain ⟨-, -, hle, hmove, -, -⟩ := Erc20.transfer_eq_ok ht
  have htotal : t.balanceOf d.strategy = SimpleStrategy.totalUnderlying d w - n := by
    rw [hmove, move_src _ _ h.strategy_ne_vault]
    rfl
  refine ⟨?_, h.of_eq rfl rfl ?_⟩
  · have hle : n ≤ (asVault d w).totalUnderlying := hle
    have ht : (asVault d w).underlying.transfer d.strategy d.vault n = .ok t := ht
    show (asVault d w).unstake n = _
    unfold Vault.unstake
    rw [usub_of hle, ok_bind]
    show (asVault d w).underlying.transfer d.strategy d.vault n >>= _ = _
    rw [ht, ok_bind]
    simp [asVault, SimpleStrategy.totalUnderlying, htotal]
  · dsimp only
    rw [update_self]
    exact h.unapproved.transfer ht

/-- A round changes the token of its pool, and what the pools keep. -/
theorem forwardReward_eq_ok {p : Address}
    (hx : SimpleStrategy.forwardReward d w p = .ok w') :
    w'.vault = w.vault ∧ ∀ token, token ≠ d.rewardToken p → w'.tokens token = w.tokens token := by
  unfold SimpleStrategy.forwardReward at hx
  dsimp only at hx
  split_ifs at hx
  · obtain ⟨t, -, hx⟩ := bind_eq_ok.1 hx
    obtain ⟨pools, -, hx⟩ := bind_eq_ok.1 hx
    cases hx
    exact ⟨rfl, fun token hne => update_of_ne hne _ _⟩
  · cases hx
    exact ⟨rfl, fun _ _ => rfl⟩

/-- A harvest changes nothing that the vault sees. -/
theorem harvest_refines (h : Sound d w) (hx : SimpleStrategy.harvest d w sender = .ok w') :
    asVault d w' = asVault d w ∧ w'.vault = w.vault ∧ Sound d w' := by
  obtain ⟨-, hx⟩ := require_bind_eq_ok.1 hx
  -- the invariant of the loop over the extra rewards
  have hsame : w'.vault = w.vault ∧ w'.tokens d.underlying = w.tokens d.underlying :=
    foldlM_keeps (fun w₁ => w₁.vault = w.vault ∧ w₁.tokens d.underlying = w.tokens d.underlying)
      (fun p hp w₁ w₂ hI h₁ => by
        obtain ⟨hv, ht⟩ := forwardReward_eq_ok h₁
        exact ⟨hv.trans hI.1, (ht _ (h.extraRewards p hp).symm).trans hI.2⟩) ⟨rfl, rfl⟩ hx
  refine ⟨?_, hsame.1, h.of_eq (by rw [hsame.1]) (by rw [hsame.1]) ?_⟩
  · simp [asVault, SimpleStrategy.totalUnderlying, hsame]
  · rw [hsame.2]
    exact h.unapproved

/-! ## What the vault does -/

/-- The hook only reaches the pools. -/
theorem beforeTokenTransfer_eq_ok {src dst : Address}
    (hx : _beforeTokenTransfer d w src dst n = .ok w') : ∃ pools, w' = { w with pools } := by
  obtain ⟨p, -, hx⟩ := bind_eq_ok.1 hx
  obtain ⟨pools, -, hx⟩ := bind_eq_ok.1 hx
  cases hx
  exact ⟨pools, rfl⟩

theorem changeShares_eq_ok {src dst : Address} {f : Erc20 Address → Tx (Erc20 Address)}
    (hx : changeShares d w src dst n f = .ok w') :
    ∃ shares pools, f w.vault.shares = .ok shares ∧ w' = { w.withShares shares with pools } := by
  obtain ⟨w₁, h₁, hx⟩ := bind_eq_ok.1 hx
  obtain ⟨shares, hs, hx⟩ := bind_eq_ok.1 hx
  cases hx
  obtain ⟨pools, rfl⟩ := beforeTokenTransfer_eq_ok h₁
  exact ⟨shares, pools, hs, rfl⟩

theorem deposit_refines (h : Sound d w) (hs : sender ≠ d.strategy)
    (hx : deposit d w sender a receiver = .ok (w', n)) :
    (asVault d w).deposit sender a receiver = .ok (asVault d w', n) ∧ Sound d w' := by
  obtain ⟨hz, hx⟩ := require_bind_eq_ok.1 hx
  obtain ⟨hpos, hx⟩ := require_bind_eq_ok.1 hx
  obtain ⟨k, hk, hx⟩ := bind_eq_ok.1 hx
  obtain ⟨t, ht, hx⟩ := bind_eq_ok.1 hx
  obtain ⟨w₁, h₁, hx⟩ := bind_eq_ok.1 hx
  cases hx
  obtain ⟨shares, pools, hsh, rfl⟩ := changeShares_eq_ok h₁
  have htotal : t.balanceOf d.strategy = SimpleStrategy.totalUnderlying d w + a := by
    rw [(Erc20.transferFrom_eq_ok ht).2.2.1, move_dst _ _ hs]
    rfl
  have hfits : SimpleStrategy.totalUnderlying d w + a < 2 ^ 256 := by
    rw [← htotal]
    exact (t.balanceOf_le _).trans_lt t.totalSupply_lt
  refine ⟨?_, h.of_eq rfl rfl ?_⟩
  · have ht : (asVault d w).underlying.transferFrom d.vault sender d.strategy a = .ok t := ht
    have hfits : (asVault d w).totalUnderlying + a < 2 ^ 256 := hfits
    unfold Vault.deposit Vault.notToZeroAddress Vault.stake
    rw [require_of hz, ok_bind, require_of hpos, ok_bind, hk, ok_bind]
    show (asVault d w).underlying.transferFrom d.vault sender d.strategy a >>= _ = _
    rw [ht, ok_bind]
    dsimp only
    rw [uadd_of hfits, ok_bind, ok_bind]
    show w.vault.shares.mint receiver n >>= _ = _
    rw [hsh, ok_bind]
    simp [asVault, World.withShares, SimpleStrategy.totalUnderlying, htotal]
  · show (update w.tokens d.underlying t d.underlying).Unapproved d.strategy
    rw [update_self]
    exact h.unapproved.transferFrom ht

theorem payOut_refines (h : Sound d w) (hx : payOut d w sender a = .ok (w', x)) :
    (asVault d w).payOut a = .ok (asVault d w', x) ∧ Sound d w' := by
  unfold payOut at hx
  unfold Vault.payOut
  by_cases h0 : w.vault.shares.totalSupply = 0
  · have h0' : (asVault d w).totalSupply = 0 := h0
    rw [if_pos h0] at hx
    rw [if_pos h0']
    obtain ⟨w₁, h₁, hx⟩ := bind_eq_ok.1 hx
    obtain ⟨w₂, h₂, hx⟩ := bind_eq_ok.1 hx
    cases hx
    obtain ⟨-, h₁⟩ := require_bind_eq_ok.1 h₁
    obtain ⟨hsame, -, hsound⟩ := harvest_refines h h₁
    obtain ⟨hun, hsound⟩ := withdraw_refines hsound h₂
    -- nothing has been gained, as what the strategy holds is its total
    have hharvest : (asVault d w).harvest = .ok (asVault d w₁) := by
      have hlt : (asVault d w).totalUnderlying + 0 < 2 ^ 256 :=
        ((w.tokens d.underlying).balanceOf_le _).trans_lt (w.tokens d.underlying).totalSupply_lt
      unfold Vault.harvest
      show uadd 256 (asVault d w).totalUnderlying 0 >>= _ = _
      rw [uadd_of hlt, ok_bind, hsame]
      rfl
    have htotal : (asVault d w₁).totalUnderlying = SimpleStrategy.totalUnderlying d w₁ := rfl
    rw [hharvest, ok_bind, htotal, hun, ok_bind]
    exact ⟨rfl, hsound⟩
  · have h0' : (asVault d w).totalSupply ≠ 0 := h0
    rw [if_neg h0] at hx
    rw [if_neg h0']
    obtain ⟨p, hp, hx⟩ := bind_eq_ok.1 hx
    obtain ⟨k, hk, hx⟩ := bind_eq_ok.1 hx
    obtain ⟨w₁, h₁, hx⟩ := bind_eq_ok.1 hx
    cases hx
    obtain ⟨hun, hsound⟩ := withdraw_refines h h₁
    rw [hp, ok_bind, hk, ok_bind, hun, ok_bind]
    exact ⟨rfl, hsound⟩

/-- A redemption, after which the receiver may turn out to be the strategy. -/
theorem redeem_refines (h : Sound d w) (hx : redeem d w sender m receiver owner = .ok (w', x)) :
    (∃ v, (asVault d w).redeem sender m receiver owner = .ok (v, x) ∧
      Vault.Elsewhere v (asVault d w')) ∧ Sound d w' := by
  obtain ⟨hr, hx⟩ := require_bind_eq_ok.1 hx
  obtain ⟨ho, hx⟩ := require_bind_eq_ok.1 hx
  obtain ⟨spent, hspent, hx⟩ := bind_eq_ok.1 hx
  obtain ⟨r, hw, hx⟩ := bind_eq_ok.1 hx
  obtain ⟨t, ht, hx⟩ := bind_eq_ok.1 hx
  cases hx
  obtain ⟨hpos, hw⟩ := require_bind_eq_ok.1 hw
  obtain ⟨y, hy, hw⟩ := bind_eq_ok.1 hw
  obtain ⟨z, hz, hw⟩ := bind_eq_ok.1 hw
  obtain ⟨w₁, h₁, hw⟩ := bind_eq_ok.1 hw
  obtain ⟨burnt, pools, hburn, rfl⟩ := changeShares_eq_ok h₁
  have hsound : Sound d { (w.withShares spent).withShares burnt with pools } :=
    h.of_eq rfl rfl h.unapproved
  obtain ⟨hpay, hsound⟩ := payOut_refines hsound hw
  have hwithdraw : ({ asVault d w with shares := spent } : Vault)._withdraw owner m =
      .ok (asVault d r.1, r.2) := by
    unfold Vault._withdraw
    rw [require_of (show 0 < ({ asVault d w with shares := spent } : Vault).totalSupply from hpos),
      ok_bind]
    show umul 256 m (SimpleStrategy.totalUnderlying d (w.withShares spent)) >>= _ = _
    rw [hy, ok_bind]
    show udiv y (w.withShares spent).vault.shares.totalSupply >>= _ = _
    rw [hz, ok_bind]
    show (w.withShares spent).vault.shares.burn owner m >>= _ = _
    rw [hburn, ok_bind]
    exact hpay
  refine ⟨⟨{ asVault d r.1 with underlying := t }, ?_, ⟨⟨rfl, rfl, rfl, rfl⟩, rfl, ?_⟩⟩,
    hsound.of_eq rfl rfl ?_⟩
  · have ht : (asVault d r.1).underlying.transfer (asVault d r.1).self receiver r.2 = .ok t := ht
    unfold Vault.redeem Vault.notToZeroAddress
    rw [require_of hr, ok_bind, require_of ho, ok_bind, hspent, ok_bind, hwithdraw, ok_bind, ht,
      ok_bind]
  · have hkeep : (r.1.tokens d.underlying).balanceOf d.strategy ≤ t.balanceOf d.strategy := by
      rw [(Erc20.transfer_eq_ok ht).2.2.2.1]
      exact Erc20.le_move _ _ h.strategy_ne_vault.symm
    simpa [asVault, SimpleStrategy.totalUnderlying] using hkeep
  · dsimp only
    rw [update_self]
    exact hsound.unapproved.transfer ht

/-! ## The refinement -/

/-- The owner does not add the underlying token as an extra reward in this call. -/
def Harmless (d : Immutables P) (c : Call) : Prop :=
  ∀ r p, c = .addExtraReward r p → d.rewardToken p ≠ d.underlying

variable (d) in
/-- A run of `Vault` from `v` has led to what the vault is now. -/
structure Follows (v : Vault) (w : World P) : Prop where
  steps : Vault.Steps v (asVault d w)
  sound : Sound d w

theorem state_eq_ok {r : Tx (World P × ℕ)} (hx : state r = .ok w') : ∃ x, r = .ok (w', x) := by
  obtain ⟨q, hq, hx⟩ := bind_eq_ok.1 hx
  cases hx
  exact ⟨q.2, hq⟩

namespace Follows

variable {v v₁ : Vault}

/-- A call that `Vault` makes as well, with the same value. -/
theorem call {c : VaultCall} {x : Tx (Vault × ℕ)} (h : Follows d v w)
    (hc : (asVault d w).exec sender c = Vault.state x) (hx : x = .ok (v₁, n)) :
    Vault.Steps v v₁ :=
  .tail h.steps (.call sender c (by rw [hc, hx]; rfl))

/-- A call that goes unnoticed. -/
theorem silent (h : Follows d v w) (hv : asVault d w' = asVault d w) (hs : Sound d w') :
    Follows d v w' :=
  ⟨hv ▸ h.steps, hs⟩

/-- A call that only changes the shares, and reaches the pools. -/
theorem changeShares {c : VaultCall} {shares : Erc20 Address} {pools : P} (h : Follows d v w)
    (hc : (asVault d w).exec sender c = .ok { asVault d w with shares }) :
    Follows d v { w.withShares shares with pools } :=
  ⟨.tail h.steps (.call sender c hc), h.sound.of_eq rfl rfl h.sound.unapproved⟩

theorem deposit (h : Follows d v w) (hs : sender ≠ d.strategy)
    (hx : Simple.deposit d w sender a receiver = .ok (w', n)) : Follows d v w' := by
  obtain ⟨hdep, hsound⟩ := deposit_refines h.sound hs hx
  exact ⟨h.call (c := .deposit a receiver) rfl hdep, hsound⟩

theorem mint (h : Follows d v w) (hs : sender ≠ d.strategy)
    (hx : Simple.mint d w sender m receiver = .ok (w', n)) : Follows d v w' := by
  obtain ⟨assets, ha, hx⟩ := bind_eq_ok.1 hx
  obtain ⟨hdep, hsound⟩ := deposit_refines h.sound hs hx
  have hmint : (asVault d w).mint sender m receiver = .ok (asVault d w', n) :=
    bind_eq_ok.2 ⟨assets, ha, hdep⟩
  exact ⟨h.call (c := .mint m receiver) rfl hmint, hsound⟩

theorem redeem (h : Follows d v w)
    (hx : Simple.redeem d w sender m receiver owner = .ok (w', n)) : Follows d v w' := by
  obtain ⟨⟨v₁, hred, he⟩, hsound⟩ := redeem_refines h.sound hx
  exact ⟨.tail (h.call (c := .redeem m receiver owner) rfl hred) (.elsewhere he), hsound⟩

theorem withdraw (h : Follows d v w)
    (hx : Simple.withdraw d w sender a receiver owner = .ok (w', n)) : Follows d v w' := by
  obtain ⟨m, hm, hx⟩ := bind_eq_ok.1 hx
  obtain ⟨⟨v₁, hred, he⟩, hsound⟩ := redeem_refines h.sound hx
  have hwith : (asVault d w).withdraw sender a receiver owner = .ok (v₁, n) :=
    bind_eq_ok.2 ⟨m, hm, hred⟩
  exact ⟨.tail (h.call (c := .withdraw a receiver owner) rfl hwith) (.elsewhere he), hsound⟩

theorem harvest (h : Follows d v w) (hx : Simple.harvest d w sender n = .ok w') :
    Follows d v w' := by
  obtain ⟨-, hx⟩ := require_bind_eq_ok.1 hx
  obtain ⟨he, -, hsound⟩ := harvest_refines h.sound hx
  exact h.silent he hsound

theorem setWithdrawalPenalty (h : Follows d v w)
    (hx : Simple.setWithdrawalPenalty w sender n = .ok w') : Follows d v w' := by
  obtain ⟨ho, hx⟩ := require_bind_eq_ok.1 hx
  obtain ⟨hp, hx⟩ := require_bind_eq_ok.1 hx
  cases hx
  have hset : (asVault d w).exec sender (.setWithdrawalPenalty n) =
      .ok { asVault d w with withdrawalPenalty := n } := by
    show require _ _ >>= _ = _
    rw [require_of (show (asVault d w).owner = sender from ho), ok_bind, require_of hp, ok_bind]
  obtain ⟨hv, hs, hne, -, hextra, hun⟩ := h.sound
  exact ⟨.tail h.steps (.call sender _ hset), hv, hs, hne, hp, hextra, hun⟩

theorem addExtraReward {r p : Address} (h : Follows d v w) (hp : d.rewardToken p ≠ d.underlying)
    (hx : Simple.addExtraReward d w sender r p = .ok w') : Follows d v w' := by
  obtain ⟨-, hx⟩ := require_bind_eq_ok.1 hx
  obtain ⟨-, hx⟩ := require_bind_eq_ok.1 hx
  obtain ⟨-, hx⟩ := require_bind_eq_ok.1 hx
  obtain ⟨-, hx⟩ := require_bind_eq_ok.1 hx
  obtain ⟨-, hx⟩ := require_bind_eq_ok.1 hx
  cases hx
  obtain ⟨hv, hs, hne, hpen, hextra, hun⟩ := h.sound
  refine h.silent rfl ⟨hv, hs, hne, hpen, fun q hq => ?_, hun⟩
  rcases List.mem_append.1 hq with hq | hq
  · exact hextra q hq
  · rw [List.mem_singleton.1 hq]
    exact hp

theorem clearExtraRewards (h : Follows d v w)
    (hx : Simple.clearExtraRewards d w sender = .ok w') : Follows d v w' := by
  obtain ⟨-, hx⟩ := require_bind_eq_ok.1 hx
  cases hx
  obtain ⟨hv, hs, hne, hpen, -, hun⟩ := h.sound
  exact h.silent rfl ⟨hv, hs, hne, hpen, nofun, hun⟩

theorem setHarvestPermissions {b : Bool} (h : Follows d v w)
    (hx : Simple.setHarvestPermissions w sender b = .ok w') : Follows d v w' := by
  obtain ⟨-, hx⟩ := require_bind_eq_ok.1 hx
  cases hx
  exact h.silent rfl (h.sound.of_eq rfl rfl h.sound.unapproved)

theorem updateAuthorizedHarvesters {b : Bool} (h : Follows d v w)
    (hx : Simple.updateAuthorizedHarvesters w sender receiver b = .ok w') : Follows d v w' := by
  obtain ⟨-, hx⟩ := require_bind_eq_ok.1 hx
  cases hx
  exact h.silent rfl (h.sound.of_eq rfl rfl h.sound.unapproved)

theorem transfer (h : Follows d v w) (hx : Simple.transfer d w sender receiver n = .ok w') :
    Follows d v w' := by
  obtain ⟨shares, pools, ht, rfl⟩ := changeShares_eq_ok hx
  exact h.changeShares (c := .transfer receiver n) (bind_eq_ok.2 ⟨shares, ht, rfl⟩)

theorem transferFrom (h : Follows d v w)
    (hx : Simple.transferFrom d w sender owner receiver n = .ok w') : Follows d v w' := by
  obtain ⟨shares, pools, ht, rfl⟩ := changeShares_eq_ok hx
  exact h.changeShares (c := .transferFrom owner receiver n) (bind_eq_ok.2 ⟨shares, ht, rfl⟩)

theorem approve (h : Follows d v w) (hx : Simple.approve w sender receiver n = .ok w') :
    Follows d v w' := by
  obtain ⟨shares, ht, hx⟩ := bind_eq_ok.1 hx
  cases hx
  exact h.changeShares (c := .approve receiver n) (bind_eq_ok.2 ⟨shares, ht, rfl⟩)

/-- Every call is a call of the vault over the abstract strategy, or goes unnoticed. -/
theorem exec {c : Call} (h : Follows d v w) (hs : (system d).IsCaller w sender)
    (hc : Harmless d c) (hx : Simple.exec d w sender c = .ok w') : Follows d v w' := by
  cases c with
  | deposit a r =>
    obtain ⟨n, hx⟩ := state_eq_ok hx
    exact h.deposit hs.2.2 hx
  | mint m r =>
    obtain ⟨n, hx⟩ := state_eq_ok hx
    exact h.mint hs.2.2 hx
  | redeem m r o =>
    obtain ⟨n, hx⟩ := state_eq_ok hx
    exact h.redeem hx
  | withdraw a r o =>
    obtain ⟨n, hx⟩ := state_eq_ok hx
    exact h.withdraw hx
  | harvest m => exact h.harvest (n := m) hx
  | setWithdrawalPenalty n => exact h.setWithdrawalPenalty hx
  | setHarvestPermissions b => exact h.setHarvestPermissions hx
  | updateAuthorizedHarvesters a b => exact h.updateAuthorizedHarvesters hx
  | addExtraReward r p => exact h.addExtraReward (hc r p rfl) hx
  | clearExtraRewards => exact h.clearExtraRewards hx
  | transfer r n => exact h.transfer hx
  | approve s n => exact h.approve hx
  | transferFrom o r n => exact h.transferFrom hx
  | strategyWithdraw n =>
    obtain ⟨hvault, -⟩ := require_bind_eq_ok.1 hx
    exact absurd hvault.symm hs.2.1
  | strategyHarvest =>
    obtain ⟨hvault, -⟩ := require_bind_eq_ok.1 hx
    exact absurd hvault.symm hs.2.1

theorem elsewhere (h : Follows d v w) (he : Elsewhere d w w') : Follows d v w' := by
  have hun := h.sound.unapproved
  have hzero : (w.tokens d.underlying).approved d.strategy = 0 :=
    Finset.sum_eq_zero fun b _ => hun b
  have hspent := he.underlying.balanceOf
  refine ⟨.tail h.steps (.elsewhere ⟨⟨rfl, ?_, rfl, ?_⟩, ?_, ?_⟩),
    h.sound.of_eq ?_ ?_ fun b => ?_⟩
  · show w'.vault.owner = w.vault.owner
    rw [he.vault]
  · show w'.vault.withdrawalPenalty = w.vault.withdrawalPenalty
    rw [he.vault]
  · show w'.vault.shares = w.vault.shares
    rw [he.vault]
  · show (w.tokens d.underlying).balanceOf d.strategy ≤
      (w'.tokens d.underlying).balanceOf d.strategy
    omega
  · rw [he.vault]
  · rw [he.vault]
  · exact Nat.le_zero.1 ((he.underlying.allowance b).trans (hun b).le)

end Follows

theorem Deployed.sound (h : Deployed d w) : Sound d w := by
  refine ⟨h.vault_ne, h.strategy_ne, h.strategy_ne_vault, ?_, ?_, h.unapproved⟩
  · rw [h.penalty]
    decide
  · rw [h.extraRewards]
    nofun

/-- The run of `Vault` along a run. -/
theorem steps_refines {w₀ : World P} {log : List (Event Address Call)} (h₀ : Deployed d w₀)
    (h : (system d).Steps w₀ log w) (hc : ∀ e ∈ log, Harmless d e.call) :
    Follows d (asVault d w₀) w := by
  induction h with
  | refl => exact ⟨.refl, h₀.sound⟩
  | elsewhere _ he ih => exact (ih hc).elsewhere he
  | call _ hs hx ih =>
    have hbefore := ih fun e he => hc e (List.mem_append_left _ he)
    exact hbefore.exec hs (hc _ (List.mem_append_right _ List.mem_cons_self)) hx

/-! ## Redeeming -/

variable (d) in
/-- The owner has redeemed `m` shares, which are burnt. The receiver is paid their part of the
total less the penalty, or, when no share is left, all that the strategy and the vault have. -/
structure Redeemed (w w' : World P) (owner receiver : Address) (m x : ℕ) : Prop where
  shares : w.vault.shares.burn owner m = .ok w'.vault.shares
  paid : x = if w'.vault.shares.totalSupply = 0 then
      (w.tokens d.underlying).balanceOf d.vault + SimpleStrategy.totalUnderlying d w
    else m * SimpleStrategy.totalUnderlying d w / w.vault.shares.totalSupply -
      m * SimpleStrategy.totalUnderlying d w / w.vault.shares.totalSupply *
        w.vault.withdrawalPenalty / feeDenominator
  balance : (w'.tokens d.underlying).balanceOf =
    move (move (w.tokens d.underlying).balanceOf d.strategy d.vault
      (if w'.vault.shares.totalSupply = 0 then SimpleStrategy.totalUnderlying d w else x))
      d.vault receiver x

theorem withdraw_eq_ok (hx : SimpleStrategy.withdraw d w d.vault n = .ok w') :
    w'.vault = w.vault ∧ (w'.tokens d.underlying).balanceOf =
      move (w.tokens d.underlying).balanceOf d.strategy d.vault n := by
  obtain ⟨-, hx⟩ := require_bind_eq_ok.1 hx
  obtain ⟨t, ht, hx⟩ := bind_eq_ok.1 hx
  cases hx
  refine ⟨rfl, ?_⟩
  dsimp only
  rw [update_self]
  exact (Erc20.transfer_eq_ok ht).2.2.2.1

theorem payOut_eq_ok (h : Sound d w) (hx : payOut d w sender a = .ok (w', x)) :
    w'.vault = w.vault ∧
    (x = if w.vault.shares.totalSupply = 0 then
        (w.tokens d.underlying).balanceOf d.vault + SimpleStrategy.totalUnderlying d w
      else a - a * w.vault.withdrawalPenalty / feeDenominator) ∧
    (w'.tokens d.underlying).balanceOf =
      move (w.tokens d.underlying).balanceOf d.strategy d.vault
        (if w.vault.shares.totalSupply = 0 then SimpleStrategy.totalUnderlying d w else x) := by
  unfold payOut at hx
  split_ifs at hx ⊢ with h0
  · obtain ⟨w₁, h₁, hx⟩ := bind_eq_ok.1 hx
    obtain ⟨w₂, h₂, hx⟩ := bind_eq_ok.1 hx
    cases hx
    obtain ⟨-, h₁⟩ := require_bind_eq_ok.1 h₁
    obtain ⟨hsame, hvault, -⟩ := harvest_refines h h₁
    have htokens : w₁.tokens d.underlying = w.tokens d.underlying := congrArg Vault.underlying hsame
    obtain ⟨hvault', hbalance⟩ := withdraw_eq_ok h₂
    unfold SimpleStrategy.totalUnderlying at hbalance ⊢
    rw [htokens] at hbalance
    refine ⟨hvault'.trans hvault, ?_, hbalance⟩
    rw [hbalance, move_dst _ _ h.strategy_ne_vault]
  · obtain ⟨p, hp, hx⟩ := bind_eq_ok.1 hx
    obtain ⟨k, hk, hx⟩ := bind_eq_ok.1 hx
    obtain ⟨w₁, h₁, hx⟩ := bind_eq_ok.1 hx
    cases hx
    obtain ⟨y, hy, hp⟩ := bind_eq_ok.1 hp
    obtain ⟨-, rfl⟩ := umul_eq_ok.1 hy
    obtain ⟨-, rfl⟩ := udiv_eq_ok.1 hp
    obtain ⟨-, rfl⟩ := usub_eq_ok.1 hk
    obtain ⟨hvault, hbalance⟩ := withdraw_eq_ok h₁
    exact ⟨hvault, rfl, hbalance⟩

/-- What the owner gets for its shares. -/
theorem redeem_eq_ok (h : Sound d w) (hx : redeem d w owner m receiver owner = .ok (w', x)) :
    Redeemed d w w' owner receiver m x := by
  obtain ⟨-, hx⟩ := require_bind_eq_ok.1 hx
  obtain ⟨-, hx⟩ := require_bind_eq_ok.1 hx
  obtain ⟨spent, hspent, hx⟩ := bind_eq_ok.1 hx
  obtain rfl : w.vault.shares = spent := Except.ok.inj ((if_neg (not_not.2 rfl)).symm.trans hspent)
  obtain ⟨r, hw, hx⟩ := bind_eq_ok.1 hx
  obtain ⟨t, ht, hx⟩ := bind_eq_ok.1 hx
  cases hx
  obtain ⟨-, hw⟩ := require_bind_eq_ok.1 hw
  obtain ⟨y, hy, hw⟩ := bind_eq_ok.1 hw
  obtain ⟨-, rfl⟩ := umul_eq_ok.1 hy
  obtain ⟨z, hz, hw⟩ := bind_eq_ok.1 hw
  obtain ⟨-, rfl⟩ := udiv_eq_ok.1 hz
  obtain ⟨w₁, h₁, hw⟩ := bind_eq_ok.1 hw
  obtain ⟨burnt, pools, hburn, rfl⟩ := changeShares_eq_ok h₁
  have hsound : Sound d { w.withShares burnt with pools } := h.of_eq rfl rfl h.unapproved
  obtain ⟨hvault, hpaid, hbalance⟩ := payOut_eq_ok hsound hw
  have hshares : r.1.vault.shares = burnt := congrArg AuraBalVault.shares hvault
  refine ⟨?_, ?_, ?_⟩
  · show w.vault.shares.burn owner m = .ok r.1.vault.shares
    rw [hshares]
    exact hburn
  · show r.2 = if r.1.vault.shares.totalSupply = 0 then _ else _
    rw [hshares]
    exact hpaid
  · dsimp only
    rw [update_self, (Erc20.transfer_eq_ok ht).2.2.2.1, hbalance, hshares]
    rfl

/-- The pool never refuses a call, as long as the pools are in states of `I`, which it keeps. -/
structure Pools.Willing (f : Pools P) (I : P → Prop) (pool : Address) : Prop where
  withdraw : ∀ account n p, I p → ∃ p', f.withdraw pool account n p = .ok p' ∧ I p'
  stake : ∀ account n p, I p → ∃ p', f.stake pool account n p = .ok p' ∧ I p'
  queueNewRewards : ∀ n p, I p → ∃ p', f.queueNewRewards pool n p = .ok p' ∧ I p'

/-- The hook returns if no pool refuses. -/
theorem exists_beforeTokenTransfer {I : P → Prop} (src dst : Address) (n : ℕ) (hI : I w.pools)
    (hp : ∀ p ∈ w.vault.extraRewards, d.pools.Willing I p) :
    ∃ pools, _beforeTokenTransfer d w src dst n = .ok { w with pools } ∧ I pools := by
  obtain ⟨p, hwithdraw, hI⟩ := foldlM_total I
    (f := fun p r => d.pools.withdraw r src n p) (fun r hr => (hp r hr).withdraw src n) hI
  obtain ⟨pools, hstake, hI⟩ := foldlM_total I
    (f := fun p r => d.pools.stake r dst n p) (fun r hr => (hp r hr).stake dst n) hI
  refine ⟨pools, ?_, hI⟩
  unfold _beforeTokenTransfer
  rw [hwithdraw, ok_bind, hstake, ok_bind]

/-- So does a round of the loop over the extra rewards. -/
theorem exists_forwardReward {I : P → Prop} {p : Address} (hd : d.strategy ≠ 0) (hne : p ≠ 0)
    (hp : d.pools.Willing I p) (hI : I w.pools) :
    ∃ w', SimpleStrategy.forwardReward d w p = .ok w' ∧ I w'.pools := by
  unfold SimpleStrategy.forwardReward
  dsimp only
  split_ifs
  · obtain ⟨t, ht⟩ := (w.tokens (d.rewardToken p)).exists_transfer hd hne
      (le_refl ((w.tokens (d.rewardToken p)).balanceOf d.strategy))
    obtain ⟨pools, hpools, hI⟩ := hp.queueNewRewards
      ((w.tokens (d.rewardToken p)).balanceOf d.strategy) w.pools hI
    rw [ht, ok_bind, hpools, ok_bind]
    exact ⟨_, rfl, hI⟩
  · exact ⟨w, rfl, hI⟩

/-- The strategy has what it says it has. -/
theorem Sound.exists_withdraw (h : Sound d w) (hn : n ≤ SimpleStrategy.totalUnderlying d w) :
    ∃ w', SimpleStrategy.withdraw d w d.vault n = .ok w' ∧
      n ≤ (w'.tokens d.underlying).balanceOf d.vault := by
  obtain ⟨t, ht⟩ := (w.tokens d.underlying).exists_transfer h.strategy_ne h.vault_ne hn
  refine ⟨_, by unfold SimpleStrategy.withdraw; rw [require_of rfl, ok_bind, ht, ok_bind], ?_⟩
  dsimp only
  rw [update_self, (Erc20.transfer_eq_ok ht).2.2.2.1]
  exact le_move_dst _ _ _ _

/-- What is paid out is there, also for the last one. -/
theorem Sound.exists_payOut (h : Sound d w) (ha : a ≤ SimpleStrategy.totalUnderlying d w)
    (hfee : a * w.vault.withdrawalPenalty < 2 ^ 256)
    {I : P → Prop} (hI : I w.pools)
    (hp : ∀ p ∈ w.vault.extraRewards, p ≠ 0 ∧ d.pools.Willing I p) (sender : Address) :
    ∃ w' x, payOut d w sender a = .ok (w', x) ∧ x ≤ (w'.tokens d.underlying).balanceOf d.vault := by
  unfold payOut
  split_ifs with h0
  · obtain ⟨w₁, h₁, -⟩ := foldlM_total (f := SimpleStrategy.forwardReward d)
      (fun w₁ => I w₁.pools) (fun p hm w₁ hI₁ =>
        exists_forwardReward h.strategy_ne (hp p hm).1 (hp p hm).2 hI₁) hI
    have hharvest : harvest d w sender 0 = .ok w₁ := by
      unfold harvest SimpleStrategy.harvest
      rw [require_of (.inr (.inr h0)), ok_bind, require_of rfl, ok_bind, h₁]
    obtain ⟨-, hharvested⟩ := require_bind_eq_ok.1 hharvest
    have hsound := (harvest_refines h hharvested).2.2
    obtain ⟨w', hw', -⟩ := hsound.exists_withdraw (le_refl (SimpleStrategy.totalUnderlying d _))
    rw [hharvest, ok_bind, hw', ok_bind]
    exact ⟨_, _, rfl, le_rfl⟩
  · have hpen : a * w.vault.withdrawalPenalty / feeDenominator ≤ a := by
      refine Nat.div_le_of_le_mul ?_
      rw [Nat.mul_comm feeDenominator]
      exact Nat.mul_le_mul_left a (h.penalty.trans (by decide))
    have hfee : a * (asVault d w).withdrawalPenalty < 2 ^ 256 := hfee
    have hden : feeDenominator ≠ 0 := by decide
    have hget : (asVault d w)._getWithdrawalPenalty a =
        .ok (a * w.vault.withdrawalPenalty / feeDenominator) := by
      unfold Vault._getWithdrawalPenalty
      rw [umul_of hfee, ok_bind, udiv_of hden]
      rfl
    obtain ⟨w', hw', hle⟩ := h.exists_withdraw ((Nat.sub_le _ _).trans ha)
    rw [hget, ok_bind, usub_of hpen, ok_bind, hw', ok_bind]
    exact ⟨_, _, rfl, hle⟩

/-! ## The underlying token as an extra reward -/

variable (d) in
/-- The first pool of the list that rewards in a token. -/
def poolOf (pools : List Address) (token : Address) : Option Address :=
  pools.find? fun p => decide (d.rewardToken p = token)

variable (d) in
/-- The balances of a token when all that the strategy has of it is with a pool. -/
def sentTo (t : Erc20 Address) : Option Address → Address → ℕ
  | some p => move t.balanceOf d.strategy p (t.balanceOf d.strategy)
  | none => t.balanceOf

/-- A round sends everything of the token that it is about, and nothing of the others. -/
theorem balanceOf_forwardReward {p : Address}
    (hx : SimpleStrategy.forwardReward d w p = .ok w') (token : Address) :
    (w'.tokens token).balanceOf =
      sentTo d (w.tokens token) (if d.rewardToken p = token then some p else none) := by
  unfold SimpleStrategy.forwardReward at hx
  dsimp only at hx
  split_ifs at hx with hpos
  · obtain ⟨t, ht, hx⟩ := bind_eq_ok.1 hx
    obtain ⟨pools, -, hx⟩ := bind_eq_ok.1 hx
    cases hx
    by_cases he : d.rewardToken p = token
    · subst he
      rw [if_pos rfl]
      dsimp only
      rw [update_self]
      exact (Erc20.transfer_eq_ok ht).2.2.2.1
    · rw [if_neg he]
      dsimp only
      rw [update_of_ne (Ne.symm he)]
      rfl
  · cases hx
    by_cases he : d.rewardToken p = token
    · subst he
      rw [if_pos rfl, sentTo, Nat.eq_zero_of_not_pos hpos, move_zero]
    · rw [if_neg he]
      rfl

/-- The loop sends everything of every token that is an extra reward to the first pool of it. -/
theorem balanceOf_forwardReward_foldlM {pools : List Address} (hp : ∀ p ∈ pools, p ≠ d.strategy)
    (hx : pools.foldlM (SimpleStrategy.forwardReward d) w = .ok w') (token : Address) :
    (w'.tokens token).balanceOf = sentTo d (w.tokens token) (poolOf d pools token) := by
  induction pools generalizing w with
  | nil =>
    cases hx
    rfl
  | cons p pools ih =>
    rw [List.foldlM_cons] at hx
    obtain ⟨w₁, h₁, hx⟩ := bind_eq_ok.1 hx
    have hfirst := balanceOf_forwardReward h₁ token
    rw [ih (fun q hq => hp q (List.mem_cons_of_mem p hq)) hx]
    by_cases he : d.rewardToken p = token
    · -- nothing is left for the pools after it
      have hnone : (w₁.tokens token).balanceOf d.strategy = 0 := by
        rw [hfirst, if_pos he, sentTo, move_src _ _ (hp p List.mem_cons_self).symm, Nat.sub_self]
      have hrest : ∀ q, sentTo d (w₁.tokens token) q = (w₁.tokens token).balanceOf := by
        intro q
        cases q with
        | none => rfl
        | some q => rw [sentTo, hnone, move_zero]
      rw [hrest, hfirst, if_pos he, poolOf, List.find?_cons_of_pos (by simpa using he)]
    · rw [if_neg he] at hfirst
      have hskip : poolOf d (p :: pools) token = poolOf d pools token :=
        List.find?_cons_of_neg (by simpa using he)
      rw [hskip]
      cases poolOf d pools token with
      | none => exact hfirst
      | some q =>
        simp only [sentTo] at hfirst ⊢
        rw [hfirst]

/-- A harvest sends all that the strategy has of an extra reward to the first pool that rewards
in it, and moves nothing else. So what is deposited stays exactly if the underlying token is not
an extra reward, and otherwise all of it goes to the pool. -/
theorem harvest_total (hp : ∀ p ∈ w.vault.extraRewards, p ≠ d.strategy)
    (hx : harvest d w sender n = .ok w') :
    (∀ token, (w'.tokens token).balanceOf =
      match w.vault.extraRewards.find? fun p => decide (d.rewardToken p = token) with
      | some p => move (w.tokens token).balanceOf d.strategy p
          ((w.tokens token).balanceOf d.strategy)
      | none => (w.tokens token).balanceOf) ∧
    SimpleStrategy.totalUnderlying d w' =
      if d.underlying ∈ w.vault.extraRewards.map d.rewardToken then 0
      else SimpleStrategy.totalUnderlying d w := by
  obtain ⟨-, hx⟩ := require_bind_eq_ok.1 hx
  obtain ⟨-, hx⟩ := require_bind_eq_ok.1 hx
  have hbalance := balanceOf_forwardReward_foldlM hp hx
  refine ⟨fun token => ?_, ?_⟩
  · rw [hbalance]
    unfold sentTo poolOf
    rfl
  · have htotal := congrFun (hbalance d.underlying) d.strategy
    unfold SimpleStrategy.totalUnderlying
    rw [htotal]
    cases hpool : poolOf d w.vault.extraRewards d.underlying with
    | none =>
      have hnone : d.underlying ∉ w.vault.extraRewards.map d.rewardToken := by
        intro hm
        obtain ⟨p, hp, he⟩ := List.mem_map.1 hm
        exact List.find?_eq_none.1 hpool p hp (by simpa using he)
      rw [if_neg hnone]
      rfl
    | some p =>
      have hm := List.mem_of_find?_eq_some hpool
      have he : d.rewardToken p = d.underlying := by simpa using List.find?_some hpool
      rw [if_pos (List.mem_map.2 ⟨p, hm, he⟩), sentTo, move_src _ _ (hp p hm).symm, Nat.sub_self]

/-! ## The main results -/

/-- As long as the owner does not add the underlying token as an extra reward, a run is a run of
the vault over the abstract strategy, and deposits and redemptions return what they return
there. -/
theorem simple_refines {w₀ : World P} {log : List (Event Address Call)} (h₀ : Deployed d w₀)
    (h : (system d).Steps w₀ log w) (hc : ∀ e ∈ log, Harmless d e.call) :
    Vault.Steps (asVault d w₀) (asVault d w) ∧
    (∀ sender a receiver w' n, sender ≠ d.strategy → deposit d w sender a receiver = .ok (w', n) →
      (asVault d w).deposit sender a receiver = .ok (asVault d w', n)) ∧
    ∀ sender m receiver owner w' x, redeem d w sender m receiver owner = .ok (w', x) →
      ∃ v, (asVault d w).redeem sender m receiver owner = .ok (v, x) := by
  have hfollows := steps_refines h₀ h hc
  have hsound := hfollows.sound
  refine ⟨hfollows.steps, fun _ _ _ _ _ hs hx => (deposit_refines hsound hs hx).1, ?_⟩
  intro sender m receiver owner w' x hx
  obtain ⟨⟨v, hr, -⟩, -⟩ := redeem_refines hsound hx
  exact ⟨v, hr⟩

/-- Any holder can redeem any of its shares, whoever may harvest, and is paid for them, unless
the products overflow or a pool of the extra rewards refuses a call. -/
theorem redeem_always {w₀ : World P} {log : List (Event Address Call)} (h₀ : Deployed d w₀)
    (h : (system d).Steps w₀ log w) (hc : ∀ e ∈ log, Harmless d e.call) (howner : owner ≠ 0)
    (hreceiver : receiver ≠ 0) (hpos : 0 < m) (hm : m ≤ w.vault.shares.balanceOf owner)
    (hfits : m * SimpleStrategy.totalUnderlying d w < 2 ^ 256)
    (hfee : SimpleStrategy.totalUnderlying d w * w.vault.withdrawalPenalty < 2 ^ 256)
    {I : P → Prop} (hI : I w.pools)
    (hp : ∀ p ∈ w.vault.extraRewards, p ≠ 0 ∧ d.pools.Willing I p) :
    ∃ w' x, redeem d w owner m receiver owner = .ok (w', x) ∧
      Redeemed d w w' owner receiver m x := by
  have hsound := (steps_refines h₀ h hc).sound
  have hsupply : m ≤ w.vault.shares.totalSupply := hm.trans (Erc20.balanceOf_le _ _)
  have hS : 0 < w.vault.shares.totalSupply := hpos.trans_le hsupply
  obtain ⟨burnt, hburn⟩ := w.vault.shares.exists_burn howner hm
  obtain ⟨pools, hhook, hI⟩ := exists_beforeTokenTransfer owner 0 m hI fun p hm => (hp p hm).2
  set a := m * SimpleStrategy.totalUnderlying d w / w.vault.shares.totalSupply with hadef
  have ha : a ≤ SimpleStrategy.totalUnderlying d w :=
    Nat.div_le_of_le_mul (Nat.mul_le_mul_right _ hsupply)
  have hsound' : Sound d { w.withShares burnt with pools } :=
    hsound.of_eq rfl rfl hsound.unapproved
  obtain ⟨w', x, hpay, hle⟩ := hsound'.exists_payOut ha
    ((Nat.mul_le_mul_right _ ha).trans_lt hfee) hI hp owner
  obtain ⟨-, hsound'⟩ := payOut_refines hsound' hpay
  obtain ⟨t, ht⟩ := (w'.tokens d.underlying).exists_transfer hsound'.vault_ne hreceiver hle
  have hspend : (asVault d w).spendShares owner owner m = .ok w.vault.shares :=
    if_neg (not_not.2 rfl)
  have hwithdraw : _withdraw d (w.withShares w.vault.shares) owner owner m = .ok (w', x) := by
    have hsame : w.withShares w.vault.shares = w := rfl
    have hburnt : _burn d w owner m = .ok { w.withShares burnt with pools } := by
      unfold _burn changeShares
      rw [hhook, ok_bind]
      show w.vault.shares.burn owner m >>= _ = _
      rw [hburn, ok_bind]
      rfl
    unfold _withdraw
    rw [hsame, require_of hS, ok_bind, umul_of hfits, ok_bind, udiv_of hS.ne', ok_bind, hburnt,
      ok_bind]
    exact hpay
  have hredeem : redeem d w owner m receiver owner =
      .ok ({ w' with tokens := update w'.tokens d.underlying t }, x) := by
    unfold redeem Vault.notToZeroAddress
    rw [require_of hreceiver, ok_bind, require_of howner, ok_bind, hspend, ok_bind, hwithdraw,
      ok_bind, ht, ok_bind]
  exact ⟨_, _, hredeem, redeem_eq_ok hsound hredeem⟩

/-! ## Runs -/

/-- Pools that keep what is queued for each of them. Nobody has earned anything yet, so that
nothing else changes with the shares. -/
def queues : Pools (Address → ℕ) where
  withdraw _ _ _ p := .ok p
  stake _ _ _ p := .ok p
  queueNewRewards pool n p := .ok (update p pool (p pool + n))

theorem queues_willing (pool : Address) : queues.Willing (fun _ => True) pool where
  withdraw _ _ p _ := ⟨p, rfl, trivial⟩
  stake _ _ p _ := ⟨p, rfl, trivial⟩
  queueNewRewards n p _ := ⟨update p pool (p pool + n), rfl, trivial⟩

/-- A vault at the address 500, owned by 300, with the strategy 501. The underlying token is 200,
of which the account 1 holds 10^30. All pools reward in the token 201, of which somebody has
sent 40 to the strategy. -/
def immutables : Immutables (Address → ℕ) where
  vault := 500
  strategy := 501
  underlying := 200
  rewardToken _ := 201
  pools := queues

def World.initial : World (Address → ℕ) where
  vault := ⟨300, 100, Erc20.empty, [], fun _ => false, true, fun _ => false⟩
  tokens token :=
    if token = 201 then Erc20.single 501 40 (by decide) fun _ _ => 0
    else Erc20.single 1 (10 ^ 30) Erc20.single_supply_lt
      fun a _ => if a = 501 then 0 else 2 ^ 256 - 1
  pools _ := 0

theorem World.initial_deployed : Deployed immutables World.initial where
  vault_ne := show (500 : Address) ≠ 0 by decide
  strategy_ne := show (501 : Address) ≠ 0 by decide
  strategy_ne_vault := show (501 : Address) ≠ 500 by decide
  penalty := rfl
  shares := rfl
  extraRewards := rfl
  unapproved _ := rfl

theorem elsewhere_refl (w : World P) : Elsewhere d w w :=
  ⟨rfl, .refl _ _⟩

/-- The owner adds the pool 601, and the account 1 deposits. -/
def depositRun : List (Event Address Call) :=
  [⟨0, 300, .addExtraReward 201 601⟩, ⟨0, 1, .deposit 1000 1⟩]

theorem depositRun_harmless : ∀ e ∈ depositRun, Harmless immutables e.call := by
  intro e _ r p _
  exact show (201 : Address) ≠ 200 by decide

theorem depositRun_steps : ∃ w, (system immutables).Steps World.initial depositRun w ∧
    (w.vault.shares.balanceOf 1 = 1000 ∧ w.vault.shares.totalSupply = 1000) ∧
      (SimpleStrategy.totalUnderlying immutables w = 1000 ∧ (w.tokens 200).balanceOf 500 = 0) ∧
      w.vault.withdrawalPenalty = 100 ∧ w.vault.extraRewards = [601] := by
  have hvalues : ((system immutables).play (fun w _ => w) World.initial depositRun).map
      (fun w => ((w.vault.shares.balanceOf 1, w.vault.shares.totalSupply),
        (SimpleStrategy.totalUnderlying immutables w, (w.tokens 200).balanceOf 500),
        w.vault.withdrawalPenalty, w.vault.extraRewards)) =
      .ok ((1000, 1000), (1000, 0), 100, [601]) := by decide +kernel
  obtain ⟨w, hw, hvalues⟩ := Tx.map_eq_ok.1 hvalues
  simp only [Prod.mk.injEq] at hvalues
  exact ⟨w, .play (fun w _ _ => elsewhere_refl w) hw, hvalues⟩

theorem simple_refines_run : ∃ w, (system immutables).Steps World.initial depositRun w ∧
    Vault.Steps (asVault immutables World.initial) (asVault immutables w) := by
  obtain ⟨w, hw, -⟩ := depositRun_steps
  exact ⟨w, hw, (simple_refines World.initial_deployed hw depositRun_harmless).1⟩

/-- The only holder redeems everything, although only the owner may permit harvests, and is
paid 1000. The pool is told, and gets its rewards in the harvest. -/
theorem redeem_always_run : ∃ w w', (system immutables).Steps World.initial depositRun w ∧
    w.vault.extraRewards = [601] ∧ redeem immutables w 1 1000 1 1 = .ok (w', 1000) := by
  obtain ⟨w, hw, ⟨hbalance, hsupply⟩, ⟨htotal, hvault⟩, hpenalty, hextra⟩ := depositRun_steps
  have hne : (1 : Address) ≠ 0 := by decide
  have hpool : ∀ p ∈ w.vault.extraRewards, p ≠ 0 ∧ queues.Willing (fun _ => True) p := by
    intro p hp
    rw [hextra, List.mem_singleton] at hp
    subst hp
    exact ⟨show (601 : Address) ≠ 0 by decide, queues_willing 601⟩
  obtain ⟨w', x, hx, hredeemed⟩ := redeem_always (m := 1000) World.initial_deployed hw
    depositRun_harmless hne hne (by decide) hbalance.ge
    (by rw [htotal]; decide) (by rw [htotal, hpenalty]; decide) trivial hpool
  -- no share is left
  have hlast : w'.vault.shares.totalSupply = 0 := by
    have hburn := (Erc20.burn_eq_ok hredeemed.shares).2.2
    omega
  have hpaid := hredeemed.paid
  rw [if_pos hlast, htotal, show immutables.underlying = 200 from rfl,
    show immutables.vault = 500 from rfl, hvault, Nat.zero_add] at hpaid
  exact ⟨w, w', hw, hextra, hpaid ▸ hx⟩

/-- The pool 601 rewards in the underlying token, and the account 5 harvests. -/
theorem harvest_total_run : ∃ (d : Immutables (Address → ℕ)) (w w' : World (Address → ℕ)),
    harvest d w 5 0 = .ok w' ∧ SimpleStrategy.totalUnderlying d w = 1000 ∧
    SimpleStrategy.totalUnderlying d w' = 0 ∧ (w'.tokens d.underlying).balanceOf 601 = 1000 := by
  let d : Immutables (Address → ℕ) := { immutables with rewardToken := fun _ => 200 }
  let w : World (Address → ℕ) :=
    ⟨⟨300, 100, Erc20.empty, [601], fun _ => true, false, fun _ => false⟩,
      fun _ => Erc20.single 501 1000 (by decide) fun _ _ => 0, fun _ => 0⟩
  obtain ⟨w', hw⟩ := Tx.exists_ok (show (harvest d w 5 0).returns = true by decide +kernel)
  have hne : (601 : Address) ≠ 501 := by decide
  have hp : ∀ p ∈ w.vault.extraRewards, p ≠ d.strategy := by
    intro p hp
    rw [List.mem_singleton.1 hp]
    exact hne
  have hextra : d.underlying ∈ w.vault.extraRewards.map d.rewardToken :=
    List.mem_map.2 ⟨601, List.mem_singleton_self _, rfl⟩
  obtain ⟨hbalance, htotal⟩ := harvest_total hp hw
  rw [if_pos hextra] at htotal
  have hpool : (w'.tokens d.underlying).balanceOf 601 = 1000 := by
    rw [hbalance]
    decide +kernel
  exact ⟨d, w, w', hw, by decide +kernel, htotal, hpool⟩

end Aura.Compounder.Simple
