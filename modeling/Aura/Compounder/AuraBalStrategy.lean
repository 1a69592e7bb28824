import Aura.Compounder.SharePrice
import Aura.Evm.Others
import Aura.Evm.Run

/-!
# AuraBalStrategy

`AuraBalStrategy` of `Strategy.sol` is the strategy of the auraBAL vault on the canonical
chain. It stakes the auraBAL, and a harvest sells the rewards for BAL and WETH, adds these to
their pool, swaps what it gets for auraBAL and stakes that too.

This is what it does (`strategy_accounts`) : a stake adds exactly its amount to
`totalUnderlying`, a withdrawal takes exactly its amount and pays it to the vault, a harvest
adds at least what it returns, and nothing else lowers the total, whatever is sold or
forwarded. A harvest that stakes something leaves nothing behind that it could have staked. So
it refines the abstract strategy that the vault was modelled over (`strategy_serves`).

The pools, the handlers and the Balancer vault are a parameter, with what the strategy relies on
as `Lawful`.
-/

open Evm Function

namespace Aura.Compounder.Staking

abbrev Tokens := Address → Erc20 Address

/-- The contracts that the strategy calls, at any addresses. A call gets its sender. -/
class Outside (σ : Type) where
  /-- `balanceOf(a)` of a `BaseRewardPool`. -/
  balanceOf : σ → (pool a : Address) → ℕ
  stake : σ → (pool sender : Address) → (_amount : ℕ) → Tokens → Tx (σ × Tokens)
  /-- `withdraw(_amount, false)`. -/
  withdraw : σ → (pool sender : Address) → (_amount : ℕ) → Tokens → Tx (σ × Tokens)
  getReward : σ → (pool sender : Address) → Tokens → Tx (σ × Tokens)
  extraRewardsLength : σ → (vault : Address) → ℕ
  extraRewards : σ → (vault : Address) → ℕ → Tx Address
  rewardToken : σ → (rewards : Address) → Address
  queueNewRewards : σ → (rewards sender : Address) → ℕ → Tokens → Tx (σ × Tokens)
  /-- `IRewardHandler(handler).sell()`. -/
  sell : σ → (handler sender : Address) → Tokens → Tx (σ × Tokens)
  /-- `joinPool` with `EXACT_TOKENS_IN_FOR_BPT_OUT`, from and to its sender. -/
  joinPool : σ → (balVault sender : Address) → (poolId : ℕ) → (assets : Address × Address) →
    (amountsIn : ℕ × ℕ) → (_minAmountOut : ℕ) → Tokens → Tx (σ × Tokens)
  /-- `swap` with `GIVEN_IN`, from and to its sender. -/
  swap : σ → (balVault sender : Address) → (poolId : ℕ) → (assetIn assetOut : Address) →
    (amount limit : ℕ) → Tokens → Tx (σ × Tokens)

structure Immutables where
  /-- `address(this)`. -/
  self : Address
  vault : Address
  auraBalStaking : Address
  balVault : Address
  auraBalToken : Address
  balToken : Address
  wethToken : Address
  balEthPoolToken : Address
  auraBalBalEthBptPoolId : ℕ
  balEthPoolId : ℕ

/-- The tokens are different. -/
structure Immutables.Distinct (d : Immutables) : Prop where
  bal_pool : d.balToken ≠ d.balEthPoolToken
  weth_pool : d.wethToken ≠ d.balEthPoolToken
  bal_auraBal : d.balToken ≠ d.auraBalToken
  weth_auraBal : d.wethToken ≠ d.auraBalToken
  pool_auraBal : d.balEthPoolToken ≠ d.auraBalToken

/-- What the strategy relies on. Only its own calls of `withdraw` lower what it has staked. A
join takes the given amounts, and a swap the given amount, and neither takes another token. -/
structure Lawful (σ : Type) [Outside σ] (d : Immutables) : Prop where
  stake : ∀ {b : σ} {n t r}, Outside.stake b d.auraBalStaking d.self n t = .ok r →
    Outside.balanceOf r.1 d.auraBalStaking d.self =
      Outside.balanceOf b d.auraBalStaking d.self + n ∧
    (r.2 d.auraBalToken).balanceOf d.self + n = (t d.auraBalToken).balanceOf d.self ∧
    ∀ token, token ≠ d.auraBalToken → (r.2 token).balanceOf d.self = (t token).balanceOf d.self
  withdraw : ∀ {b : σ} {n t r}, Outside.withdraw b d.auraBalStaking d.self n t = .ok r →
    Outside.balanceOf r.1 d.auraBalStaking d.self + n =
      Outside.balanceOf b d.auraBalStaking d.self ∧
    (r.2 d.auraBalToken).balanceOf d.vault = (t d.auraBalToken).balanceOf d.vault
  getReward : ∀ {b : σ} {t r}, Outside.getReward b d.auraBalStaking d.self t = .ok r →
    Outside.balanceOf b d.auraBalStaking d.self ≤ Outside.balanceOf r.1 d.auraBalStaking d.self
  queueNewRewards : ∀ {b : σ} {rewards n t r},
    Outside.queueNewRewards b rewards d.self n t = .ok r →
      Outside.balanceOf b d.auraBalStaking d.self ≤ Outside.balanceOf r.1 d.auraBalStaking d.self
  sell : ∀ {b : σ} {handler t r}, Outside.sell b handler d.self t = .ok r →
    Outside.balanceOf b d.auraBalStaking d.self ≤ Outside.balanceOf r.1 d.auraBalStaking d.self
  joinPool : ∀ {b : σ} {balAmount wethAmount n t r},
    Outside.joinPool b d.balVault d.self d.balEthPoolId (d.balToken, d.wethToken)
        (balAmount, wethAmount) n t = .ok r →
      Outside.balanceOf b d.auraBalStaking d.self ≤
        Outside.balanceOf r.1 d.auraBalStaking d.self ∧
      (r.2 d.balToken).balanceOf d.self + balAmount = (t d.balToken).balanceOf d.self ∧
      (r.2 d.wethToken).balanceOf d.self + wethAmount = (t d.wethToken).balanceOf d.self
  swap : ∀ {b : σ} {n k t r},
    Outside.swap b d.balVault d.self d.auraBalBalEthBptPoolId d.balEthPoolToken d.auraBalToken
        n k t = .ok r →
      Outside.balanceOf b d.auraBalStaking d.self ≤
        Outside.balanceOf r.1 d.auraBalStaking d.self ∧
      (r.2 d.balEthPoolToken).balanceOf d.self + n = (t d.balEthPoolToken).balanceOf d.self ∧
      ∀ token, token ≠ d.balEthPoolToken → token ≠ d.auraBalToken →
        (r.2 token).balanceOf d.self = (t token).balanceOf d.self

structure AuraBalStrategy extends Immutables where
  owner : Address
  rewardTokens : List Address
  rewardHandlers : Address → Address

/-- What went through the strategy. -/
inductive Flow where
  | staked (n : ℕ)
  | withdrawn (n : ℕ)
  /-- What `harvest` returned. -/
  | harvested (n : ℕ)
  deriving DecidableEq

/-- The strategy with its surroundings. The list `flows` is read by no function. -/
structure World (σ : Type) where
  /-- `block.timestamp`. -/
  now : ℕ
  tokens : Tokens
  outside : σ
  strategy : AuraBalStrategy
  flows : List Flow

variable {σ : Type}

namespace World

variable (w : World σ)

/-- What the strategy holds of a token. -/
def idle (token : Address) : ℕ :=
  (w.tokens token).balanceOf w.strategy.self

/-- The world after a call of another contract. -/
def after (r : σ × Tokens) : World σ :=
  { w with outside := r.1, tokens := r.2 }

/-- The world with other balances and allowances of a token. -/
def withToken (token : Address) (t : Erc20 Address) : World σ :=
  { w with tokens := update w.tokens token t }

/-! ## Settings -/

def onlyOwner (sender : Address) : Tx Unit :=
  require (w.strategy.owner = sender) "Ownable: caller is not the owner"

def onlyVault (sender : Address) : Tx Unit :=
  require (w.strategy.vault = sender) "Vault calls only"

/-- `safeApprove` to zero, then to the maximum. -/
def approveMax (token spender : Address) : Tx (World σ) := do
  let t ← (w.tokens token).safeApprove w.strategy.self spender 0
  let t ← t.safeApprove w.strategy.self spender (2 ^ 256 - 1)
  .ok (w.withToken token t)

def setApprovals : Tx (World σ) := do
  let s := w.strategy
  let w ← w.approveMax s.auraBalToken s.auraBalStaking
  let w ← w.approveMax s.balToken s.balVault
  let w ← w.approveMax s.wethToken s.balVault
  w.approveMax s.balEthPoolToken s.balVault

def _updateRewardToken (_token _handler : Address) : World σ :=
  let s := w.strategy
  { w with strategy := { s with rewardHandlers := update s.rewardHandlers _token _handler } }

def addRewardToken (sender _token _handler : Address) : Tx (World σ) := do
  w.onlyOwner sender
  let s := w.strategy
  .ok ({ w with strategy := { s with rewardTokens := s.rewardTokens ++ [_token] } }
    |>._updateRewardToken _token _handler)

def updateRewardToken (sender _token _handler : Address) : Tx (World σ) := do
  w.onlyOwner sender
  .ok (w._updateRewardToken _token _handler)

def transferOwnership (sender newOwner : Address) : Tx (World σ) := do
  w.onlyOwner sender
  require (newOwner ≠ 0) "Ownable: new owner is the zero address"
  .ok { w with strategy := { w.strategy with owner := newOwner } }

def renounceOwnership (sender : Address) : Tx (World σ) := do
  w.onlyOwner sender
  .ok { w with strategy := { w.strategy with owner := 0 } }

/-! ## Staking -/

variable [Outside σ]

def totalUnderlying : ℕ :=
  Outside.balanceOf w.outside w.strategy.auraBalStaking w.strategy.self

def stake (sender : Address) (_amount : ℕ) : Tx (World σ) := do
  w.onlyVault sender
  let s := w.strategy
  let r ← Outside.stake w.outside s.auraBalStaking s.self _amount w.tokens
  .ok (w.after r)

def withdraw (sender : Address) (_amount : ℕ) : Tx (World σ) := do
  w.onlyVault sender
  let s := w.strategy
  let r ← Outside.withdraw w.outside s.auraBalStaking s.self _amount w.tokens
  let w := w.after r
  let t ← (w.tokens s.auraBalToken).transfer s.self s.vault _amount
  .ok (w.withToken s.auraBalToken t)

/-! ## Harvest -/

/-- The first loop of `harvest`, from index `i` on. -/
def forwardRewards : World σ → (i : ℕ) → (rounds : ℕ) → Tx (World σ)
  | w, _, 0 => .ok w
  | w, i, rounds + 1 => do
    let s := w.strategy
    let rewards ← Outside.extraRewards w.outside s.vault i
    let token := Outside.rewardToken w.outside rewards
    let balance := w.idle token
    if 0 < balance then do
      let t ← (w.tokens token).transfer s.self rewards balance
      let w := w.withToken token t
      let r ← Outside.queueNewRewards w.outside rewards s.self balance w.tokens
      (w.after r).forwardRewards (i + 1) rounds
    else w.forwardRewards (i + 1) rounds

/-- The second loop of `harvest`. -/
def sellRewards : World σ → (_rewardTokens : List Address) → Tx (World σ)
  | w, [] => .ok w
  | w, token :: _rewardTokens => do
    let s := w.strategy
    let _tokenHandler := s.rewardHandlers token
    let _tokenBalance := w.idle token
    if _tokenHandler ≠ 0 ∧ 0 < _tokenBalance then do
      let t ← (w.tokens token).transfer s.self _tokenHandler _tokenBalance
      let w := w.withToken token t
      let r ← Outside.sell w.outside _tokenHandler s.self w.tokens
      (w.after r).sellRewards _rewardTokens
    else w.sellRewards _rewardTokens

def _depositToBalEthPool (_balAmount _wethAmount _minAmountOut : ℕ) : Tx (World σ) := do
  let s := w.strategy
  let r ← Outside.joinPool w.outside s.balVault s.self s.balEthPoolId (s.balToken, s.wethToken)
    (_balAmount, _wethAmount) _minAmountOut w.tokens
  .ok (w.after r)

def _swapBptToAuraBal (_amount _minAmountOut : ℕ) : Tx (World σ) := do
  let s := w.strategy
  let r ← Outside.swap w.outside s.balVault s.self s.auraBalBalEthBptPoolId s.balEthPoolToken
    s.auraBalToken _amount _minAmountOut w.tokens
  .ok (w.after r)

/-- What `harvest` does with the BAL and the WETH. The result includes what it returns. -/
def compound (sender : Address) (_minAmountOut : ℕ) : Tx (World σ × ℕ) := do
  let s := w.strategy
  let _wethBalance := w.idle s.wethToken
  let _balBalance := w.idle s.balToken
  let x ← uadd 256 _wethBalance _balBalance
  if x = 0 then .ok (w, 0)
  else do
    let w ← w._depositToBalEthPool _balBalance _wethBalance 0
    let w ← w._swapBptToAuraBal (w.idle s.balEthPoolToken) _minAmountOut
    let _auraBalBalance := w.idle s.auraBalToken
    if 0 < _auraBalBalance then do
      let w ← w.stake sender _auraBalBalance
      .ok (w, _auraBalBalance)
    else .ok (w, 0)

def harvest (sender : Address) (_minAmountOut : ℕ) : Tx (World σ × ℕ) := do
  w.onlyVault sender
  let s := w.strategy
  let r ← Outside.getReward w.outside s.auraBalStaking s.self w.tokens
  let w := w.after r
  let w ← w.forwardRewards 0 (Outside.extraRewardsLength w.outside s.vault)
  let w ← w.sellRewards w.strategy.rewardTokens
  w.compound sender _minAmountOut

end World

/-! ## Runs -/

/-- The functions that change the state. -/
inductive Call where
  | setApprovals
  | addRewardToken (_token _handler : Address)
  | updateRewardToken (_token _handler : Address)
  | transferOwnership (newOwner : Address)
  | renounceOwnership
  | stake (_amount : ℕ)
  | withdraw (_amount : ℕ)
  | harvest (_minAmountOut : ℕ)
  deriving DecidableEq

/-- Add to the flows. -/
def World.record (w : World σ) (f : Flow) : World σ :=
  { w with flows := w.flows ++ [f] }

/-- Run a call of `sender`. -/
def exec [Outside σ] (w : World σ) (sender : Address) : Call → Tx (World σ)
  | .setApprovals => w.setApprovals
  | .addRewardToken a b => w.addRewardToken sender a b
  | .updateRewardToken a b => w.updateRewardToken sender a b
  | .transferOwnership a => w.transferOwnership sender a
  | .renounceOwnership => w.renounceOwnership sender
  | .stake n => do
    let w ← w.stake sender n
    .ok (w.record (.staked n))
  | .withdraw n => do
    let w ← w.withdraw sender n
    .ok (w.record (.withdrawn n))
  | .harvest n => do
    let r ← w.harvest sender n
    .ok (r.1.record (.harvested r.2))

/-- No call comes from the strategy itself. -/
def IsCaller (w : World σ) (a : Address) : Prop :=
  a ≠ w.strategy.self

instance (w : World σ) (a : Address) : Decidable (IsCaller w a) :=
  inferInstanceAs (Decidable (_ ≠ _))

variable [Outside σ]

/-- Time passes, tokens move and other contracts act. Nobody takes auraBAL from the strategy, nor
withdraws what it has staked. -/
structure Elsewhere (w w' : World σ) : Prop where
  now : w.now ≤ w'.now
  strategy : w'.strategy = w.strategy
  flows : w'.flows = w.flows
  totalUnderlying : w.totalUnderlying ≤ w'.totalUnderlying

/-- The strategy was just deployed. -/
structure Deployed (w : World σ) : Prop where
  rewardTokens : w.strategy.rewardTokens = []
  distinct : w.strategy.Distinct
  vault_ne : w.strategy.self ≠ w.strategy.vault
  flows : w.flows = []

/-- The strategy and its surroundings. -/
def system (σ : Type) [Outside σ] : System (World σ) Address Call where
  now := World.now
  IsCaller := IsCaller
  exec := exec
  Elsewhere := Elsewhere
  Deployed := Deployed

instance (w : World σ) (a : Address) : Decidable ((system σ).IsCaller w a) :=
  inferInstanceAs (Decidable (IsCaller w a))

abbrev Log := List (Event Address Call)

/-! ## What each function does -/

variable {w w' w'' : World σ} {sender : Address}

/-- The total did not fall, and nothing was recorded. -/
structure Keeps (w w' : World σ) : Prop where
  strategy : w'.strategy = w.strategy
  flows : w'.flows = w.flows
  totalUnderlying : w.totalUnderlying ≤ w'.totalUnderlying

theorem Keeps.refl (w : World σ) : Keeps w w :=
  ⟨rfl, rfl, le_rfl⟩

theorem Keeps.trans (h : Keeps w w') (h' : Keeps w' w'') : Keeps w w'' :=
  ⟨h'.strategy.trans h.strategy, h'.flows.trans h.flows,
    h.totalUnderlying.trans h'.totalUnderlying⟩

/-- Only tokens move. -/
theorem Keeps.withToken (token : Address) (t : Erc20 Address) : Keeps w (w.withToken token t) :=
  ⟨rfl, rfl, le_rfl⟩

theorem Keeps.after {r : σ × Tokens}
    (h : Outside.balanceOf w.outside w.strategy.auraBalStaking w.strategy.self ≤
      Outside.balanceOf r.1 w.strategy.auraBalStaking w.strategy.self) : Keeps w (w.after r) :=
  ⟨rfl, rfl, h⟩

theorem stake_eq_ok {n : ℕ} (h : w.stake sender n = .ok w')
    (hlaw : Lawful σ w.strategy.toImmutables) :
    w'.strategy = w.strategy ∧ w'.flows = w.flows ∧
      w'.totalUnderlying = w.totalUnderlying + n ∧
      w'.idle w.strategy.auraBalToken + n = w.idle w.strategy.auraBalToken ∧
      ∀ token, token ≠ w.strategy.auraBalToken → w'.idle token = w.idle token := by
  obtain ⟨-, h⟩ := require_bind_eq_ok.1 h
  obtain ⟨r, hr, h⟩ := bind_eq_ok.1 h
  cases h
  obtain ⟨htotal, htaken, hothers⟩ := hlaw.stake hr
  exact ⟨rfl, rfl, htotal, htaken, hothers⟩

/-- A withdrawal pays the vault what it takes. -/
theorem withdraw_eq_ok {n : ℕ} (h : w.withdraw sender n = .ok w')
    (hlaw : Lawful σ w.strategy.toImmutables) (hne : w.strategy.self ≠ w.strategy.vault) :
    w'.strategy = w.strategy ∧ w'.flows = w.flows ∧
      w'.totalUnderlying + n = w.totalUnderlying ∧
      (w'.tokens w.strategy.auraBalToken).balanceOf w.strategy.vault =
        (w.tokens w.strategy.auraBalToken).balanceOf w.strategy.vault + n := by
  obtain ⟨-, h⟩ := require_bind_eq_ok.1 h
  obtain ⟨r, hr, h⟩ := bind_eq_ok.1 h
  obtain ⟨t, ht, h⟩ := bind_eq_ok.1 h
  cases h
  obtain ⟨htotal, hvault⟩ := hlaw.withdraw hr
  refine ⟨rfl, rfl, htotal, ?_⟩
  unfold World.withToken
  dsimp only
  rw [update_self, (Erc20.transfer_eq_ok ht).2.2.2.1, move_dst _ _ hne]
  exact congrArg (· + n) hvault

theorem forwardRewards_keeps {rounds : ℕ} : ∀ {w : World σ} {i : ℕ},
    w.forwardRewards i rounds = .ok w' → Lawful σ w.strategy.toImmutables → Keeps w w' := by
  induction rounds with
  | zero =>
    intro w i h _
    cases h
    exact .refl _
  | succ rounds ih =>
    intro w i h hlaw
    obtain ⟨rewards, -, h⟩ := bind_eq_ok.1 h
    dsimp only at h
    split_ifs at h with hpos
    · obtain ⟨t, -, h⟩ := bind_eq_ok.1 h
      obtain ⟨r, hr, h⟩ := bind_eq_ok.1 h
      have hqueued : Keeps (w.withToken (Outside.rewardToken w.outside rewards) t)
          ((w.withToken (Outside.rewardToken w.outside rewards) t).after r) :=
        .after (hlaw.queueNewRewards hr)
      exact (Keeps.withToken _ _).trans (hqueued.trans (ih h hlaw))
    · exact ih h hlaw

theorem sellRewards_keeps {l : List Address} : ∀ {w : World σ},
    w.sellRewards l = .ok w' → Lawful σ w.strategy.toImmutables → Keeps w w' := by
  induction l with
  | nil =>
    intro w h _
    cases h
    exact .refl _
  | cons token l ih =>
    intro w h hlaw
    unfold World.sellRewards at h
    dsimp only at h
    split_ifs at h with hpos
    · obtain ⟨t, -, h⟩ := bind_eq_ok.1 h
      obtain ⟨r, hr, h⟩ := bind_eq_ok.1 h
      have hsold : Keeps (w.withToken token t) ((w.withToken token t).after r) :=
        .after (hlaw.sell hr)
      exact (Keeps.withToken _ _).trans (hsold.trans (ih h hlaw))
    · exact ih h hlaw

/-- The strategy holds none of the tokens that it compounds. -/
def World.Compounded (w : World σ) : Prop :=
  w.idle w.strategy.balToken = 0 ∧ w.idle w.strategy.wethToken = 0 ∧
    w.idle w.strategy.balEthPoolToken = 0 ∧ w.idle w.strategy.auraBalToken = 0

/-- What a part of `harvest` does that returns `k`. -/
structure Harvests (w w' : World σ) (k : ℕ) : Prop where
  strategy : w'.strategy = w.strategy
  flows : w'.flows = w.flows
  totalUnderlying : w.totalUnderlying + k ≤ w'.totalUnderlying
  compounded : 0 < k → w'.Compounded

theorem compound_eq_ok {n : ℕ} {r : World σ × ℕ} (h : w.compound sender n = .ok r)
    (hlaw : Lawful σ w.strategy.toImmutables) (hd : w.strategy.Distinct) :
    Harvests w r.1 r.2 := by
  obtain ⟨x, -, h⟩ := bind_eq_ok.1 h
  dsimp only at h
  split_ifs at h with hx
  · cases h
    exact ⟨rfl, rfl, le_rfl, fun h => absurd h (lt_irrefl 0)⟩
  obtain ⟨w₁, h₁, h⟩ := bind_eq_ok.1 h
  obtain ⟨w₂, h₂, h⟩ := bind_eq_ok.1 h
  obtain ⟨r₁, hr₁, h₁⟩ := bind_eq_ok.1 h₁
  cases h₁
  obtain ⟨r₂, hr₂, h₂⟩ := bind_eq_ok.1 h₂
  cases h₂
  obtain ⟨hjoin, hbal, hweth⟩ := hlaw.joinPool hr₁
  obtain ⟨hswap, hpool, hothers⟩ := hlaw.swap hr₂
  have hkept : Keeps w ((w.after r₁).after r₂) := (Keeps.after hjoin).trans (.after hswap)
  have hbal₂ : ((w.after r₁).after r₂).idle w.strategy.balToken = 0 :=
    (hothers _ hd.bal_pool hd.bal_auraBal).trans (Nat.add_eq_right.1 hbal)
  have hweth₂ : ((w.after r₁).after r₂).idle w.strategy.wethToken = 0 :=
    (hothers _ hd.weth_pool hd.weth_auraBal).trans (Nat.add_eq_right.1 hweth)
  have hpool₂ : ((w.after r₁).after r₂).idle w.strategy.balEthPoolToken = 0 :=
    Nat.add_eq_right.1 hpool
  split_ifs at h with hpos
  · obtain ⟨w₃, h₃, h⟩ := bind_eq_ok.1 h
    cases h
    obtain ⟨hstrategy, hflows, htotal, hstaked, hrest⟩ := stake_eq_ok h₃ hlaw
    have hstrategy₃ : w₃.strategy = w.strategy := hstrategy
    refine ⟨hstrategy₃, hflows.trans hkept.flows, ?_, fun _ => ?_⟩
    · rw [htotal]
      exact Nat.add_le_add_right hkept.totalUnderlying _
    · unfold World.Compounded
      rw [hstrategy₃]
      exact ⟨(hrest _ hd.bal_auraBal).trans hbal₂, (hrest _ hd.weth_auraBal).trans hweth₂,
        (hrest _ hd.pool_auraBal).trans hpool₂, Nat.add_eq_right.1 hstaked⟩
  · cases h
    exact ⟨hkept.strategy, hkept.flows, hkept.totalUnderlying, fun h => absurd h (lt_irrefl 0)⟩

/-- A harvest adds at least what it returns. -/
theorem harvest_eq_ok {n : ℕ} {r : World σ × ℕ} (h : w.harvest sender n = .ok r)
    (hlaw : Lawful σ w.strategy.toImmutables) (hd : w.strategy.Distinct) :
    Harvests w r.1 r.2 := by
  obtain ⟨-, h⟩ := require_bind_eq_ok.1 h
  obtain ⟨r₀, hr₀, h⟩ := bind_eq_ok.1 h
  obtain ⟨w₁, h₁, h⟩ := bind_eq_ok.1 h
  obtain ⟨w₂, h₂, h⟩ := bind_eq_ok.1 h
  have hclaimed : Keeps w (w.after r₀) := .after (hlaw.getReward hr₀)
  have hforwarded := forwardRewards_keeps h₁ hlaw
  have hstrategy₁ : w₁.strategy = w.strategy := hforwarded.strategy
  have hsold := sellRewards_keeps h₂ (by rwa [hstrategy₁])
  have hkept := hclaimed.trans (hforwarded.trans hsold)
  have hc := compound_eq_ok h (by rwa [hkept.strategy]) (by rwa [hkept.strategy])
  exact ⟨hc.strategy.trans hkept.strategy, hc.flows.trans hkept.flows,
    (Nat.add_le_add_right hkept.totalUnderlying _).trans hc.totalUnderlying, hc.compounded⟩

/-! ## What a run does -/

/-- What a flow adds to the total at least. -/
def Flow.added : Flow → ℕ
  | .staked n | .harvested n => n
  | .withdrawn _ => 0

/-- What a flow takes out of the total. -/
def Flow.taken : Flow → ℕ
  | .withdrawn n => n
  | .staked _ | .harvested _ => 0

def added (l : List Flow) : ℕ :=
  (l.map Flow.added).sum

def taken (l : List Flow) : ℕ :=
  (l.map Flow.taken).sum

theorem added_append (l l' : List Flow) : added (l ++ l') = added l + added l' := by
  unfold added
  rw [List.map_append, List.sum_append]

theorem taken_append (l l' : List Flow) : taken (l ++ l') = taken l + taken l' := by
  unfold taken
  rw [List.map_append, List.sum_append]

/-- Whether a call stakes, withdraws or harvests. -/
def Call.flows : Call → Bool
  | .stake _ | .withdraw _ | .harvest _ => true
  | _ => false

/-- The call of a flow, which is one of the vault. -/
inductive IsFlow (vault : Address) : Flow → Event Address Call → Prop
  | staked {t n : ℕ} : IsFlow vault (.staked n) ⟨t, vault, .stake n⟩
  | withdrawn {t n : ℕ} : IsFlow vault (.withdrawn n) ⟨t, vault, .withdraw n⟩
  | harvested {t n k : ℕ} : IsFlow vault (.harvested k) ⟨t, vault, .harvest n⟩

/-- What a call does : it changes a setting, or it is a flow of the vault. -/
inductive Effect (w : World σ) (e : Event Address Call) (w' : World σ) : Prop
  | quiet (setting : e.call.flows = false)
      (immutables : w'.strategy.toImmutables = w.strategy.toImmutables)
      (flows : w'.flows = w.flows) (outside : w'.outside = w.outside)
  | flow {f : Flow} (call : IsFlow w.strategy.vault f e) (strategy : w'.strategy = w.strategy)
      (flows : w'.flows = w.flows ++ [f])
      (total : w.totalUnderlying + f.added ≤ w'.totalUnderlying + f.taken)

variable {c : Call}

omit [Outside σ] in
theorem approveMax_eq_ok {token spender : Address} (h : w.approveMax token spender = .ok w') :
    w'.strategy = w.strategy ∧ w'.flows = w.flows ∧ w'.outside = w.outside := by
  obtain ⟨t, -, h⟩ := bind_eq_ok.1 h
  obtain ⟨t', -, h⟩ := bind_eq_ok.1 h
  cases h
  exact ⟨rfl, rfl, rfl⟩

omit [Outside σ] in
theorem setApprovals_eq_ok (h : w.setApprovals = .ok w') :
    w'.strategy = w.strategy ∧ w'.flows = w.flows ∧ w'.outside = w.outside := by
  obtain ⟨w₁, h₁, h⟩ := bind_eq_ok.1 h
  obtain ⟨w₂, h₂, h⟩ := bind_eq_ok.1 h
  obtain ⟨w₃, h₃, h⟩ := bind_eq_ok.1 h
  obtain ⟨hs₁, hf₁, ho₁⟩ := approveMax_eq_ok h₁
  obtain ⟨hs₂, hf₂, ho₂⟩ := approveMax_eq_ok h₂
  obtain ⟨hs₃, hf₃, ho₃⟩ := approveMax_eq_ok h₃
  obtain ⟨hs₄, hf₄, ho₄⟩ := approveMax_eq_ok h
  rw [hs₄, hs₃, hs₂, hf₄, hf₃, hf₂, ho₄, ho₃, ho₂]
  exact ⟨hs₁, hf₁, ho₁⟩

theorem exec_effect (h : exec w sender c = .ok w') (hlaw : Lawful σ w.strategy.toImmutables)
    (hd : w.strategy.Distinct) (hne : w.strategy.self ≠ w.strategy.vault) :
    Effect w ⟨w.now, sender, c⟩ w' := by
  cases c with
  | setApprovals =>
    obtain ⟨hs, hf, ho⟩ := setApprovals_eq_ok h
    exact .quiet rfl (by rw [hs]) hf ho
  | addRewardToken a b =>
    obtain ⟨-, h⟩ := require_bind_eq_ok.1 h
    cases h
    exact .quiet rfl rfl rfl rfl
  | updateRewardToken a b =>
    obtain ⟨-, h⟩ := require_bind_eq_ok.1 h
    cases h
    exact .quiet rfl rfl rfl rfl
  | transferOwnership a =>
    obtain ⟨-, h⟩ := require_bind_eq_ok.1 h
    obtain ⟨-, h⟩ := require_bind_eq_ok.1 h
    cases h
    exact .quiet rfl rfl rfl rfl
  | renounceOwnership =>
    obtain ⟨-, h⟩ := require_bind_eq_ok.1 h
    cases h
    exact .quiet rfl rfl rfl rfl
  | stake n =>
    obtain ⟨w₁, h₁, h⟩ := bind_eq_ok.1 h
    cases h
    obtain rfl : w.strategy.vault = sender := (require_bind_eq_ok.1 h₁).1
    obtain ⟨hs, hf, htotal, -⟩ := stake_eq_ok h₁ hlaw
    exact .flow .staked hs (congrArg (· ++ [_]) hf) htotal.ge
  | withdraw n =>
    obtain ⟨w₁, h₁, h⟩ := bind_eq_ok.1 h
    cases h
    obtain rfl : w.strategy.vault = sender := (require_bind_eq_ok.1 h₁).1
    obtain ⟨hs, hf, htotal, -⟩ := withdraw_eq_ok h₁ hlaw hne
    exact .flow .withdrawn hs (congrArg (· ++ [_]) hf) htotal.ge
  | harvest n =>
    obtain ⟨r, h₁, h⟩ := bind_eq_ok.1 h
    cases h
    obtain rfl : w.strategy.vault = sender := (require_bind_eq_ok.1 h₁).1
    have hh := harvest_eq_ok h₁ hlaw hd
    exact .flow .harvested hh.strategy (congrArg (· ++ [_]) hh.flows) hh.totalUnderlying

/-- What a run does from `w` to `w'`. -/
structure Progress (w : World σ) (log : Log) (w' : World σ) : Prop where
  immutables : w'.strategy.toImmutables = w.strategy.toImmutables
  flows : ∃ new, w'.flows = w.flows ++ new ∧
    List.Forall₂ (IsFlow w.strategy.vault) new (log.filter fun e => e.call.flows) ∧
    w.totalUnderlying + added new ≤ w'.totalUnderlying + taken new

theorem Progress.elsewhere {log : Log} (h : Progress w log w') (he : Elsewhere w' w'') :
    Progress w log w'' := by
  obtain ⟨new, hf, hlog, htotal⟩ := h.flows
  exact ⟨by rw [he.strategy, h.immutables], new, he.flows.trans hf, hlog,
    htotal.trans (Nat.add_le_add_right he.totalUnderlying _)⟩

theorem Progress.call {log : Log} {e : Event Address Call} (h : Progress w log w')
    (he : Effect w' e w'') : Progress w (log ++ [e]) w'' := by
  obtain ⟨new, hf, hlog, htotal⟩ := h.flows
  have hvault : w'.strategy.vault = w.strategy.vault := congrArg Immutables.vault h.immutables
  cases he with
  | quiet setting immutables flows outside =>
    refine ⟨immutables.trans h.immutables, new, flows.trans hf, ?_, ?_⟩
    · simpa [List.filter_append, setting] using hlog
    · unfold World.totalUnderlying at htotal ⊢
      rwa [outside, immutables]
  | @flow f call strategy flows total =>
    refine ⟨by rw [strategy, h.immutables], new ++ [f], ?_, ?_, ?_⟩
    · rw [flows, hf, List.append_assoc]
    · have hcall : e.call.flows = true := by cases call <;> rfl
      have hlast : ([e].filter fun e => e.call.flows) = [e] := by simp [hcall]
      rw [hvault] at call
      rw [List.filter_append, hlast]
      exact List.rel_append hlog (.cons call .nil)
    · have hadded : added [f] = f.added := Nat.add_zero _
      have htaken : taken [f] = f.taken := Nat.add_zero _
      rw [added_append, taken_append, hadded, htaken]
      omega

theorem Deployed.steps {log : Log} (h₀ : Deployed w) (hlaw : Lawful σ w.strategy.toImmutables)
    (hs : (system σ).Steps w log w') : Progress w log w' := by
  induction hs with
  | refl => exact ⟨rfl, [], (List.append_nil _).symm, .nil, le_rfl⟩
  | elsewhere _ he ih => exact ih.elsewhere he
  | call _ hc hx ih =>
    have hi := ih.immutables
    refine ih.call (exec_effect hx (by rwa [hi]) (by rw [hi]; exact h₀.distinct) ?_)
    rw [hi]
    exact h₀.vault_ne

variable {w₀ : World σ} {log : Log}

/-- Whoever calls, and whatever is sold, forwarded, joined and swapped : the flows are those of
the vault's calls; the total is at least what was staked and harvested, less what was withdrawn;
a withdrawal takes and pays what it says; and a harvest adds what it returns, or more, and if this
is not nothing then it leaves nothing that it could have compounded. -/
theorem strategy_accounts (h₀ : Deployed w₀) (hlaw : Lawful σ w₀.strategy.toImmutables)
    (hs : (system σ).Steps w₀ log w) :
    List.Forall₂ (IsFlow w₀.strategy.vault) w.flows (log.filter fun e => e.call.flows) ∧
    w₀.totalUnderlying + added w.flows ≤ w.totalUnderlying + taken w.flows ∧
    (∀ sender n w', w.withdraw sender n = .ok w' →
      w'.totalUnderlying + n = w.totalUnderlying ∧
      (w'.tokens w.strategy.auraBalToken).balanceOf w.strategy.vault =
        (w.tokens w.strategy.auraBalToken).balanceOf w.strategy.vault + n) ∧
    ∀ sender n w' k, w.harvest sender n = .ok (w', k) →
      w.totalUnderlying + k ≤ w'.totalUnderlying ∧ (0 < k → w'.Compounded) := by
  have hp := h₀.steps hlaw hs
  have hi := hp.immutables
  obtain ⟨new, hf, hlog, htotal⟩ := hp.flows
  rw [h₀.flows, List.nil_append] at hf
  have hlaw' : Lawful σ w.strategy.toImmutables := by rwa [hi]
  have hd : w.strategy.Distinct := by
    rw [hi]
    exact h₀.distinct
  have hne : w.strategy.self ≠ w.strategy.vault := by
    rw [hi]
    exact h₀.vault_ne
  rw [hf]
  refine ⟨hlog, htotal, fun sender n w' hx => (withdraw_eq_ok hx hlaw' hne).2.2,
    fun sender n w' k hx => ?_⟩
  have hh := harvest_eq_ok hx hlaw' hd
  exact ⟨hh.totalUnderlying, hh.compounded⟩

/-! ## The vault -/

/-- The vault `v` over the strategy, with a ledger of the underlying token and some gains. -/
def World.asVault (w : World σ) (v : Vault) (underlying : Erc20 Address) (gains : ℕ) : Vault :=
  { v with
    self := w.strategy.vault
    strategy := w.strategy.self
    totalUnderlying := w.totalUnderlying
    underlying, gains }

/-- The abstract strategy stakes as this one does. The staking contract, which pulls the tokens,
is part of it. -/
theorem stake_refines {n g : ℕ} {t : Erc20 Address} (h : w.stake sender n = .ok w')
    (hlaw : Lawful σ w.strategy.toImmutables) (hword : w'.totalUnderlying < 2 ^ 256) (v : Vault) :
    (w.asVault v t g).stake n = .ok (w'.asVault v t g) := by
  obtain ⟨hstrategy, -, htotal, -⟩ := stake_eq_ok h hlaw
  have hfits : w.totalUnderlying + n < 2 ^ 256 := htotal ▸ hword
  unfold Vault.stake World.asVault
  dsimp only
  rw [uadd_of hfits, ok_bind, hstrategy, htotal]

/-- In a ledger that differs in no balance of the vault, the abstract strategy withdraws as this
one does. It is the ledger after the staking contract has paid the strategy. -/
theorem withdraw_refines {n g : ℕ} (h : w.withdraw sender n = .ok w')
    (hlaw : Lawful σ w.strategy.toImmutables) (v : Vault) : ∃ t : Erc20 Address,
    t.balanceOf w.strategy.vault =
      (w.tokens w.strategy.auraBalToken).balanceOf w.strategy.vault ∧
    (w.asVault v t g).unstake n = .ok (w'.asVault v (w'.tokens w'.strategy.auraBalToken) g) := by
  obtain ⟨-, h⟩ := require_bind_eq_ok.1 h
  obtain ⟨r, hr, h⟩ := bind_eq_ok.1 h
  obtain ⟨t, ht, h⟩ := bind_eq_ok.1 h
  cases h
  obtain ⟨htotal, hvault⟩ := hlaw.withdraw hr
  refine ⟨r.2 w.strategy.auraBalToken, hvault, ?_⟩
  have hle : n ≤ w.totalUnderlying := (Nat.le_add_left n _).trans htotal.le
  have hleft : w.totalUnderlying - n = (w.after r).totalUnderlying :=
    Nat.sub_eq_of_eq_add htotal.symm
  have ht : (r.2 w.strategy.auraBalToken).transfer w.strategy.self w.strategy.vault n = .ok t := ht
  show _ = Except.ok (World.asVault _ v
    (update (w.after r).tokens w.strategy.auraBalToken t w.strategy.auraBalToken) g)
  unfold Vault.unstake World.asVault
  dsimp only
  rw [usub_of hle, ok_bind, ht, ok_bind, hleft, update_self]
  rfl

/-- What this strategy says that it has harvested is among the gains of the abstract one. -/
theorem harvest_refines {n k : ℕ} {t : Erc20 Address} (h : w.harvest sender n = .ok (w', k))
    (hlaw : Lawful σ w.strategy.toImmutables) (hd : w.strategy.Distinct)
    (hword : w'.totalUnderlying < 2 ^ 256) (v : Vault) :
    ∃ g, k ≤ g ∧ (w.asVault v t g).harvest = .ok (w'.asVault v t 0) := by
  have hh := harvest_eq_ok h hlaw hd
  have hstrategy : w'.strategy = w.strategy := hh.strategy
  have htotal : w.totalUnderlying + k ≤ w'.totalUnderlying := hh.totalUnderlying
  have hsum : w.totalUnderlying + (w'.totalUnderlying - w.totalUnderlying) = w'.totalUnderlying :=
    Nat.add_sub_of_le (Nat.le_of_add_right_le htotal)
  have hfits : w.totalUnderlying + (w'.totalUnderlying - w.totalUnderlying) < 2 ^ 256 := by
    rwa [hsum]
  refine ⟨w'.totalUnderlying - w.totalUnderlying, Nat.le_sub_of_add_le' htotal, ?_⟩
  unfold Vault.harvest World.asVault
  dsimp only
  rw [uadd_of hfits, ok_bind, hsum, hstrategy]

/-- What a vault sees of the abstract strategy, from `v` on, with the calls that it makes of
it. -/
inductive Served (v : Vault) : List Flow → Vault → Prop
  | refl : Served v [] v
  | elsewhere {l : List Flow} {v₁ v₂ : Vault} : Served v l v₁ → Vault.Elsewhere v₁ v₂ →
    Served v l v₂
  | staked {l : List Flow} {v₁ v₂ : Vault} {n : ℕ} : Served v l v₁ → v₁.stake n = .ok v₂ →
    Served v (l ++ [.staked n]) v₂
  | withdrawn {l : List Flow} {v₁ v₂ : Vault} {n : ℕ} : Served v l v₁ → v₁.unstake n = .ok v₂ →
    Served v (l ++ [.withdrawn n]) v₂
  | harvested {l : List Flow} {v₁ v₂ : Vault} {k : ℕ} : Served v l v₁ → k ≤ v₁.gains →
    v₁.harvest = .ok v₂ → Served v (l ++ [.harvested k]) v₂

namespace Served

variable {v₀ v : Vault} {l : List Flow} {t t' : Erc20 Address} {g g' : ℕ}

/-- The underlying token moves, the total rises, and there are other gains. -/
theorem change (h : Served v₀ l (w.asVault v t g))
    (hi : w'.strategy.toImmutables = w.strategy.toImmutables)
    (hle : w.totalUnderlying ≤ w'.totalUnderlying) : Served v₀ l (w'.asVault v t' g') :=
  .elsewhere h ⟨⟨congrArg Immutables.vault hi, rfl, congrArg Immutables.self hi, rfl⟩, rfl, hle⟩

theorem exec (h : Served v₀ w.flows (w.asVault v t 0)) (hx : Staking.exec w sender c = .ok w')
    (hlaw : Lawful σ w.strategy.toImmutables) (hd : w.strategy.Distinct)
    (hne : w.strategy.self ≠ w.strategy.vault) (hword : w'.totalUnderlying < 2 ^ 256) :
    Served v₀ w'.flows (w'.asVault v t' 0) := by
  cases exec_effect hx hlaw hd hne with
  | quiet setting immutables flows outside =>
    rw [flows]
    refine h.change immutables (le_of_eq ?_)
    unfold World.totalUnderlying
    rw [outside, immutables]
  | flow call strategy flows total =>
    cases call with
    | staked =>
      rw [flows]
      obtain ⟨w₁, h₁, hx⟩ := bind_eq_ok.1 hx
      cases hx
      exact (Served.staked h (stake_refines h₁ hlaw hword v)).change rfl le_rfl
    | withdrawn =>
      rw [flows]
      obtain ⟨w₁, h₁, hx⟩ := bind_eq_ok.1 hx
      cases hx
      obtain ⟨t₁, -, hun⟩ := withdraw_refines (g := 0) h₁ hlaw v
      exact (Served.withdrawn (h.change rfl le_rfl) hun).change rfl le_rfl
    | harvested =>
      obtain ⟨r, h₁, hx⟩ := bind_eq_ok.1 hx
      cases hx
      obtain ⟨gains, hk, hh⟩ := harvest_refines (t := t) h₁ hlaw hd hword v
      have hflows : (r.1.record (.harvested r.2)).flows = w.flows ++ [.harvested r.2] :=
        congrArg (· ++ [_]) (harvest_eq_ok h₁ hlaw hd).flows
      rw [hflows]
      exact (Served.harvested (h.change rfl le_rfl) hk hh).change rfl le_rfl

end Served

/-- In every run, as long as the total fits in a word : what the vault calls and sees of this
strategy it could call and see of the abstract one. -/
theorem strategy_serves (h₀ : Deployed w₀) (hlaw : Lawful σ w₀.strategy.toImmutables)
    (hs : (system σ).Steps w₀ log w)
    (hword : ∀ log w, (system σ).Steps w₀ log w → w.totalUnderlying < 2 ^ 256) (v : Vault)
    (t₀ t : Erc20 Address) : Served (w₀.asVault v t₀ 0) w.flows (w.asVault v t 0) := by
  induction hs generalizing t with
  | refl =>
    rw [h₀.flows]
    exact Served.refl.change rfl le_rfl
  | elsewhere hs he ih =>
    rw [he.flows]
    exact (ih t).change (by rw [he.strategy]) he.totalUnderlying
  | call hs hc hx ih =>
    have hi := (h₀.steps hlaw hs).immutables
    refine (ih t).exec hx (by rwa [hi]) (by rw [hi]; exact h₀.distinct) ?_ ?_
    · rw [hi]
      exact h₀.vault_ne
    · exact hword _ _ (.call hs hc hx)

/-! ## Runs on a market -/

/-- A market with what each account has staked. Its prices are one, the staking contract 600 pays
100 BAL for each claim, the handler 602 pays 40 WETH for each sale, and 601 is the only extra
reward. -/
structure Market where
  staked : Address → ℕ

instance : Outside Market where
  balanceOf b _ a := b.staked a
  stake b pool sender _amount tokens := do
    let t ← (tokens 201).transferFrom pool sender pool _amount
    .ok (⟨update b.staked sender (b.staked sender + _amount)⟩, update tokens 201 t)
  withdraw b pool sender _amount tokens := do
    let left ← usub (b.staked sender) _amount
    let t ← (tokens 201).transfer pool sender _amount
    .ok (⟨update b.staked sender left⟩, update tokens 201 t)
  getReward b pool sender tokens := do
    let t ← (tokens 300).transfer pool sender 100
    .ok (b, update tokens 300 t)
  extraRewardsLength _ _ := 1
  extraRewards _ _ _ := .ok 601
  rewardToken _ _ := 303
  queueNewRewards b _ _ _ tokens := .ok (b, tokens)
  sell b handler sender tokens := do
    let t ← (tokens 301).transfer handler sender 40
    .ok (b, update tokens 301 t)
  joinPool b balVault sender _ assets amountsIn _minAmountOut tokens := do
    require (_minAmountOut ≤ amountsIn.1 + amountsIn.2) "BAL#208"
    let t ← (tokens assets.1).transferFrom balVault sender balVault amountsIn.1
    let tokens := update tokens assets.1 t
    let t ← (tokens assets.2).transferFrom balVault sender balVault amountsIn.2
    let tokens := update tokens assets.2 t
    let t ← (tokens 302).transfer balVault sender (amountsIn.1 + amountsIn.2)
    .ok (b, update tokens 302 t)
  swap b balVault sender _ assetIn assetOut amount limit tokens := do
    require (limit ≤ amount) "BAL#507"
    let t ← (tokens assetIn).transferFrom balVault sender balVault amount
    let tokens := update tokens assetIn t
    let t ← (tokens assetOut).transfer balVault sender amount
    .ok (b, update tokens assetOut t)

/-- A strategy at the address 501 for the vault 500. -/
def immutables : Immutables where
  self := 501
  vault := 500
  auraBalStaking := 600
  balVault := 700
  auraBalToken := 201
  balToken := 300
  wethToken := 301
  balEthPoolToken := 302
  auraBalBalEthBptPoolId := 1
  balEthPoolId := 2

theorem balanceOf_pull {t t' : Erc20 Address} {spender src dst : Address} {n : ℕ}
    (h : t.transferFrom spender src dst n = .ok t') (hne : src ≠ dst) :
    t'.balanceOf src + n = t.balanceOf src := by
  obtain ⟨-, hle, hb, -⟩ := Erc20.transferFrom_eq_ok h
  rw [hb, move_src _ _ hne]
  exact Nat.sub_add_cancel hle

theorem Market.lawful : Lawful Market immutables where
  stake {b n t r} h := by
    obtain ⟨t₁, h₁, h⟩ := bind_eq_ok.1 h
    cases h
    have hself : update b.staked immutables.self (b.staked immutables.self + n) immutables.self =
        b.staked immutables.self + n := update_self _ _ _
    refine ⟨hself, ?_, fun token hne => ?_⟩
    · have hpull := balanceOf_pull h₁ (show immutables.self ≠ immutables.auraBalStaking by decide)
      dsimp only
      rwa [show immutables.auraBalToken = 201 from rfl, update_self]
    · exact congrArg (fun t : Erc20 Address => t.balanceOf immutables.self) (update_of_ne hne _ _)
  withdraw {b n t r} h := by
    obtain ⟨left, hleft, h⟩ := bind_eq_ok.1 h
    obtain ⟨t₁, h₁, h⟩ := bind_eq_ok.1 h
    cases h
    obtain ⟨hle, rfl⟩ := usub_eq_ok.1 hleft
    constructor
    · have hself : update b.staked immutables.self (b.staked immutables.self - n) immutables.self =
          b.staked immutables.self - n := update_self _ _ _
      exact (congrArg (· + n) hself).trans (Nat.sub_add_cancel hle)
    · dsimp only
      rw [show immutables.auraBalToken = 201 from rfl, update_self,
        (Erc20.transfer_eq_ok h₁).2.2.2.1]
      exact move_of_ne _ _ (by decide) (by decide)
  getReward {b t r} h := by
    obtain ⟨t₁, -, h⟩ := bind_eq_ok.1 h
    cases h
    exact le_rfl
  queueNewRewards h := by
    cases h
    exact le_rfl
  sell h := by
    obtain ⟨t₁, -, h⟩ := bind_eq_ok.1 h
    cases h
    exact le_rfl
  joinPool {b m n k t r} h := by
    obtain ⟨-, h⟩ := require_bind_eq_ok.1 h
    obtain ⟨t₁, h₁, h⟩ := bind_eq_ok.1 h
    obtain ⟨t₂, h₂, h⟩ := bind_eq_ok.1 h
    obtain ⟨t₃, -, h⟩ := bind_eq_ok.1 h
    cases h
    have hne : immutables.self ≠ immutables.balVault := by decide
    have hbal := balanceOf_pull h₁ hne
    have hweth := balanceOf_pull h₂ hne
    dsimp only at hweth ⊢
    rw [update_of_ne (by decide)] at hweth
    refine ⟨le_rfl, ?_, ?_⟩
    · rwa [update_of_ne (by decide), update_of_ne (by decide), update_self]
    · rwa [update_of_ne (by decide), update_self]
  swap {b n k t r} h := by
    obtain ⟨-, h⟩ := require_bind_eq_ok.1 h
    obtain ⟨t₁, h₁, h⟩ := bind_eq_ok.1 h
    obtain ⟨t₂, -, h⟩ := bind_eq_ok.1 h
    cases h
    have hpull := balanceOf_pull h₁ (show immutables.self ≠ immutables.balVault by decide)
    dsimp only
    refine ⟨le_rfl, ?_, fun token hin hout => ?_⟩
    · rwa [update_of_ne (by decide), update_self]
    · rw [update_of_ne (a := token) hout, update_of_ne (a := token) hin]

/-- The strategy of the owner 100 holds rewards of the tokens 303 and 304. -/
def World.initial : World Market where
  now := 0
  tokens token :=
    Erc20.single (if token = 300 then 600 else if token = 301 then 602
      else if token = 201 ∨ token = 302 then 700 else 501) 1000 (by norm_num) fun _ _ => 0
  outside := ⟨fun _ => 0⟩
  strategy := ⟨immutables, 100, [], fun _ => 0⟩
  flows := []

theorem World.initial_deployed : Deployed World.initial where
  rewardTokens := rfl
  distinct := ⟨show (300 : Address) ≠ 302 by decide, show (301 : Address) ≠ 302 by decide,
    show (300 : Address) ≠ 201 by decide, show (301 : Address) ≠ 201 by decide,
    show (302 : Address) ≠ 201 by decide⟩
  vault_ne := show (501 : Address) ≠ 500 by decide
  flows := rfl

/-- The world at a later time. -/
def World.at (w : World Market) (now : ℕ) : World Market :=
  { w with now }

theorem World.elsewhere_at (w : World Market) (now : ℕ) (h : (system Market).now w ≤ now) :
    (system Market).Elsewhere w (w.at now) :=
  ⟨h, rfl, rfl, le_rfl⟩

/-- The 100 BAL and the 40 WETH of a harvest become 140 auraBAL, of which 90 are withdrawn. -/
theorem strategy_accounts_run : ∃ w, (system Market).Steps World.initial
      [⟨1, 5, .setApprovals⟩, ⟨2, 100, .addRewardToken 304 602⟩, ⟨3, 500, .harvest 139⟩,
        ⟨4, 500, .withdraw 90⟩] w ∧
    w.flows = [.harvested 140, .withdrawn 90] ∧ 140 ≤ w.totalUnderlying + 90 := by
  let log : Log := [⟨1, 5, .setApprovals⟩, ⟨2, 100, .addRewardToken 304 602⟩,
    ⟨3, 500, .harvest 139⟩, ⟨4, 500, .withdraw 90⟩]
  have hvalues : ((system Market).play World.at World.initial log).map (fun w => w.flows) =
      .ok [.harvested 140, .withdrawn 90] := by decide +kernel
  cases hw : (system Market).play World.at World.initial log with
  | error e =>
    rw [hw] at hvalues
    cases hvalues
  | ok w =>
    rw [hw] at hvalues
    have hflows : w.flows = _ := Except.ok.inj hvalues
    have hsteps : (system Market).Steps World.initial log w := .play World.elsewhere_at hw
    obtain ⟨-, htotal, -⟩ := strategy_accounts World.initial_deployed Market.lawful hsteps
    rw [hflows] at htotal
    exact ⟨w, hsteps, hflows, htotal⟩

end Aura.Compounder.Staking
