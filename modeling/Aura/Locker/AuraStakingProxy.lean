import Aura.Evm.Others
import Aura.Evm.Run
import Aura.Locker.Bystander
import Aura.Locker.Solvency

/-!
# AuraLocker : AuraStakingProxy

`AuraStakingProxy.sol` receives the CRV that the Booster keeps for the lockers. `distribute`
turns it into cvxCRV and queues that in `AuraLocker`, less an incentive for the caller. Its
runs are runs of the locker, and what they queue there is all that ever leaves the proxy,
but for incentives of at most a percent (`proxy_distributes`).

AURA is the staking token of the locker, which takes no rewards in it. As AURA is also
exempt from `rescueToken`, what gets into the proxy stays there (`aura_stays`).

The wrapper that deposits CRV is a parameter, with what the proxy relies on as `Lawful`. Both
hold as long as the owner does not replace the locker (`KeepsRewards`).
-/

open Evm Function

namespace Aura.StakingProxy

/-- The contracts that the proxy calls, at any addresses, besides tokens and the locker. -/
class Contracts (δ : Type) where
  /-- `ICrvDepositorWrapper(wrapper).getMinOut(_amount, _outputBps)`. -/
  getMinOut : δ → (wrapper : Address) → (_amount _outputBps : ℕ) → Tx ℕ
  /-- `ICrvDepositorWrapper(wrapper).deposit(_amount, _minOut, true, address(0))` on a call of
  `sender`. -/
  deposit : δ → (wrapper sender : Address) → (_amount _minOut : ℕ) →
    (Address → Erc20 Address) → Tx (δ × (Address → Erc20 Address))
  /-- `IAuraLocker(rewards).queueNewRewards(_token, _amount)` on a call of `sender`. -/
  queueNewRewards : δ → (rewards sender _token : Address) → (_amount : ℕ) →
    (Address → Erc20 Address) → Tx (δ × (Address → Erc20 Address))

/-- A deposit takes the CRV from its sender, and nothing else from it or from the locker. -/
structure Lawful (δ : Type) [Contracts δ] (crv locker : Address) : Prop where
  takes : ∀ {b : δ} {wrapper sender n k tokens r},
    Contracts.deposit b wrapper sender n k tokens = .ok r →
      (r.2 crv).balanceOf sender + n = (tokens crv).balanceOf sender
  gives : ∀ {b : δ} {wrapper sender n k tokens r},
    Contracts.deposit b wrapper sender n k tokens = .ok r →
      ∀ token, token ≠ crv → (tokens token).balanceOf sender ≤ (r.2 token).balanceOf sender
  spares : ∀ {b : δ} {wrapper sender n k tokens r},
    Contracts.deposit b wrapper sender n k tokens = .ok r → sender ≠ locker →
      ∀ token, (tokens token).balanceOf locker ≤ (r.2 token).balanceOf locker

structure AuraStakingProxy where
  /-- `address(this)`. -/
  self : Address
  crv : Address
  cvx : Address
  cvxCrv : Address
  keeper : Address
  crvDepositorWrapper : Address
  outputBps : ℕ
  rewards : Address
  owner : Address
  pendingOwner : Address
  callIncentive : ℕ

def denominator : ℕ := 10000

/-- The constructor, by `sender`. -/
def deploy (self sender _rewards _crv _cvx _cvxCrv _crvDepositorWrapper : Address)
    (_outputBps : ℕ) : AuraStakingProxy where
  self := self
  crv := _crv
  cvx := _cvx
  cvxCrv := _cvxCrv
  keeper := 0
  crvDepositorWrapper := _crvDepositorWrapper
  outputBps := _outputBps
  rewards := _rewards
  owner := sender
  pendingOwner := 0
  callIncentive := 25

/-- The event `RewardsDistributed`, with the incentive. -/
structure Distribution where
  token : Address
  incentiveAmount : ℕ
  amount : ℕ
  deriving DecidableEq

/-- The locker with its tokens and clock, the other contracts, and the proxy. -/
structure World (δ : Type) where
  chain : Locker.World
  contracts : δ
  proxy : AuraStakingProxy
  distributed : List Distribution

variable {δ : Type}

namespace World

variable (w : World δ)

/-- What the proxy holds of a token. -/
def held (token : Address) : ℕ :=
  w.chain.balance token w.proxy.self

/-- The world with other balances and allowances of a token. -/
def withToken (token : Address) (t : Erc20 Address) : World δ :=
  { w with chain := { w.chain with tokens := update w.chain.tokens token t } }

/-! ## Settings -/

def onlyOwner (sender : Address) : Tx Unit :=
  require (sender = w.proxy.owner) "!auth"

def setCrvDepositorWrapper (sender _crvDepositorWrapper : Address) (_outputBps : ℕ) :
    Tx (World δ) := do
  w.onlyOwner sender
  require (9000 < _outputBps ∧ _outputBps < 10000) "Invalid output bps"
  .ok { w with proxy := { w.proxy with
    crvDepositorWrapper := _crvDepositorWrapper, outputBps := _outputBps } }

def setKeeper (sender _keeper : Address) : Tx (World δ) := do
  w.onlyOwner sender
  .ok { w with proxy := { w.proxy with keeper := _keeper } }

def setPendingOwner (sender _po : Address) : Tx (World δ) := do
  w.onlyOwner sender
  .ok { w with proxy := { w.proxy with pendingOwner := _po } }

def applyPendingOwner (sender : Address) : Tx (World δ) := do
  w.onlyOwner sender
  require (w.proxy.pendingOwner ≠ 0) "invalid owner"
  .ok { w with proxy := { w.proxy with owner := w.proxy.pendingOwner, pendingOwner := 0 } }

def setCallIncentive (sender : Address) (_incentive : ℕ) : Tx (World δ) := do
  w.onlyOwner sender
  require (_incentive ≤ 100) "too high"
  .ok { w with proxy := { w.proxy with callIncentive := _incentive } }

def setRewards (sender _rewards : Address) : Tx (World δ) := do
  w.onlyOwner sender
  .ok { w with proxy := { w.proxy with rewards := _rewards } }

/-- `safeApprove` to zero, then to the maximum. -/
def approveMax (token spender : Address) : Tx (World δ) := do
  let t ← (w.chain.tokens token).safeApprove w.proxy.self spender 0
  let t ← t.safeApprove w.proxy.self spender (2 ^ 256 - 1)
  .ok (w.withToken token t)

def setApprovals : Tx (World δ) := do
  let w ← w.approveMax w.proxy.crv w.proxy.crvDepositorWrapper
  w.approveMax w.proxy.cvxCrv w.proxy.rewards

def rescueToken (sender _token _to : Address) : Tx (World δ) := do
  w.onlyOwner sender
  require (_token ≠ w.proxy.crv ∧ _token ≠ w.proxy.cvx ∧ _token ≠ w.proxy.cvxCrv) "not allowed"
  let t ← (w.chain.tokens _token).transfer w.proxy.self _to (w.held _token)
  .ok (w.withToken _token t)

/-! ## Distribution -/

/-- The incentive of a distribution is sent. The result is the incentive and the rest. -/
def sendIncentive (sender _token : Address) (bal : ℕ) : Tx (World δ × ℕ × ℕ) := do
  let x ← umul 256 bal w.proxy.callIncentive
  let incentiveAmount ← udiv x denominator
  let bal ← usub bal incentiveAmount
  let t ← (w.chain.tokens _token).transfer w.proxy.self sender incentiveAmount
  .ok (w.withToken _token t, incentiveAmount, bal)

variable [Contracts δ]

/-- `IAuraLocker(rewards).queueNewRewards`, and the event. -/
def queueNewRewards (_token : Address) (incentiveAmount bal : ℕ) : Tx (World δ) := do
  let distributed := w.distributed ++ [⟨_token, incentiveAmount, bal⟩]
  if w.proxy.rewards = w.chain.locker.config.self then do
    let chain ← Locker.queueNewRewards w.chain w.proxy.self _token bal
    .ok { w with chain, distributed }
  else do
    let r ← Contracts.queueNewRewards w.contracts w.proxy.rewards w.proxy.self _token bal
      w.chain.tokens
    .ok { w with chain := { w.chain with tokens := r.2 }, contracts := r.1, distributed }

def distributeOther (sender _token : Address) : Tx (World δ) := do
  require (_token ≠ w.proxy.crv ∧ _token ≠ w.proxy.cvxCrv) "not allowed"
  let bal := w.held _token
  if 0 < bal then do
    let r ← w.sendIncentive sender _token bal
    let w ← r.1.approveMax _token w.proxy.rewards
    w.queueNewRewards _token r.2.1 r.2.2
  else .ok w

/-- The least that a deposit has to bring. -/
def minOut (_minOut crvBal : ℕ) : Tx ℕ :=
  if _minOut ≠ 0 then .ok _minOut
  else Contracts.getMinOut w.contracts w.proxy.crvDepositorWrapper crvBal w.proxy.outputBps

/-- The first part of `_distribute` : CRV becomes cvxCRV. -/
def convert (_minOut : ℕ) : Tx (World δ) :=
  let crvBal := w.held w.proxy.crv
  if 0 < crvBal then do
    let minOut ← w.minOut _minOut crvBal
    let r ← Contracts.deposit w.contracts w.proxy.crvDepositorWrapper w.proxy.self crvBal
      minOut w.chain.tokens
    .ok { w with chain := { w.chain with tokens := r.2 }, contracts := r.1 }
  else .ok w

def _distribute (sender : Address) (_minOut : ℕ) : Tx (World δ) := do
  let w ← w.convert _minOut
  let cvxCrvBal := w.held w.proxy.cvxCrv
  if 0 < cvxCrvBal then do
    let r ← w.sendIncentive sender w.proxy.cvxCrv cvxCrvBal
    r.1.queueNewRewards w.proxy.cvxCrv r.2.1 r.2.2
  else .ok w

/-- The `distribute` with a minimum. -/
def distributeMin (sender : Address) (_minOut : ℕ) : Tx (World δ) := do
  require (sender = w.proxy.keeper) "!auth"
  w._distribute sender _minOut

def distribute (sender : Address) : Tx (World δ) := do
  require (w.proxy.keeper ≠ 0 → sender = w.proxy.keeper) "!auth"
  w._distribute sender 0

end World

/-! ## Runs -/

/-- The functions of the locker and of the proxy that change the state. -/
inductive Call where
  | locker (c : Locker.Call)
  | setCrvDepositorWrapper (_crvDepositorWrapper : Address) (_outputBps : ℕ)
  | setKeeper (_keeper : Address)
  | setPendingOwner (_po : Address)
  | applyPendingOwner
  | setCallIncentive (_incentive : ℕ)
  | setRewards (_rewards : Address)
  | setApprovals
  | rescueToken (_token _to : Address)
  | distributeMin (_minOut : ℕ)
  | distribute
  | distributeOther (_token : Address)
  deriving DecidableEq

variable [Contracts δ]

/-- Run a call of `sender`. -/
def exec (w : World δ) (sender : Address) : Call → Tx (World δ)
  | .locker c => do
    let chain ← Locker.exec w.chain sender c
    .ok { w with chain }
  | .setCrvDepositorWrapper a n => w.setCrvDepositorWrapper sender a n
  | .setKeeper a => w.setKeeper sender a
  | .setPendingOwner a => w.setPendingOwner sender a
  | .applyPendingOwner => w.applyPendingOwner sender
  | .setCallIncentive n => w.setCallIncentive sender n
  | .setRewards a => w.setRewards sender a
  | .setApprovals => w.setApprovals
  | .rescueToken t a => w.rescueToken sender t a
  | .distributeMin n => w.distributeMin sender n
  | .distribute => w.distribute sender
  | .distributeOther t => w.distributeOther sender t

omit [Contracts δ] in
/-- No call comes from the zero account, the locker or the proxy. -/
def IsCaller (w : World δ) (a : Address) : Prop :=
  Locker.IsCaller w.chain a ∧ a ≠ w.proxy.self

instance (w : World δ) (a : Address) : Decidable (IsCaller w a) :=
  inferInstanceAs (Decidable (_ ∧ _))

/-- Time passes and tokens move. Only the locker and the wrappers may take from the proxy, and
they do so in its calls. -/
structure Elsewhere (w w' : World δ) : Prop where
  chain : Locker.Elsewhere w.chain w'.chain
  proxy : w'.proxy = w.proxy
  distributed : w'.distributed = w.distributed
  held : ∀ token, w.held token ≤ w'.held token

/-- The proxy was just deployed, for a locker that any run may have led to. -/
structure Deployed (w : World δ) : Prop where
  chain : ∃ log, Locker.Reachable log w.chain
  proxy : ∃ sender _rewards _crv _cvx _cvxCrv _crvDepositorWrapper _outputBps,
    w.proxy = deploy w.proxy.self sender _rewards _crv _cvx _cvxCrv _crvDepositorWrapper _outputBps
  rewards : w.proxy.rewards = w.chain.locker.config.self
  self_ne : w.proxy.self ≠ 0
  locker_ne : w.proxy.self ≠ w.chain.locker.config.self
  crv_ne : w.proxy.crv ≠ w.proxy.cvx ∧ w.proxy.crv ≠ w.proxy.cvxCrv
  distributed : w.distributed = []

/-- The contracts and their surroundings. -/
def system (δ : Type) [Contracts δ] : System (World δ) Address Call where
  now w := w.chain.now
  IsCaller := IsCaller
  exec := exec
  Elsewhere := Elsewhere
  Deployed := Deployed

instance (w : World δ) (a : Address) : Decidable ((system δ).IsCaller w a) :=
  inferInstanceAs (Decidable (IsCaller w a))

abbrev Log := List (Event Address Call)

/-- Whether a call replaces the locker. -/
def Call.replaces : Call → Bool
  | .setRewards _ => true
  | _ => false

/-- The owner does not replace the locker. -/
def KeepsRewards (log : Log) : Prop :=
  ∀ e ∈ log, e.call.replaces = false

instance (log : Log) : Decidable (KeepsRewards log) :=
  inferInstanceAs (Decidable (∀ e ∈ log, e.call.replaces = false))

/-! ## What each function does -/

variable {w w' : World δ} {sender token : Address}

omit [Contracts δ] in
/-- A token moves that the locker does not lose. -/
theorem elsewhere_withToken {t : Erc20 Address}
    (h : w.chain.balance token w.chain.locker.config.self ≤
      t.balanceOf w.chain.locker.config.self) :
    Locker.Elsewhere w.chain (w.withToken token t).chain := by
  refine ⟨rfl, le_rfl, fun k => ?_⟩
  unfold World.withToken
  dsimp only
  by_cases hk : k = token
  · subst hk
    rw [update_self]
    exact h
  · rw [update_of_ne hk]

omit [Contracts δ] in
theorem held_withToken_of_ne (t : Erc20 Address) {k : Address} (hk : k ≠ token) :
    (w.withToken token t).held k = w.held k :=
  congrArg (fun t : Erc20 Address => t.balanceOf w.proxy.self) (update_of_ne hk _ _)

/-- Only allowances changed. -/
structure Approved (w w' : World δ) : Prop where
  proxy : w'.proxy = w.proxy
  distributed : w'.distributed = w.distributed
  locker : w'.chain.locker = w.chain.locker
  now : w'.chain.now = w.chain.now
  balance : ∀ k, w'.chain.balance k = w.chain.balance k

omit [Contracts δ] in
theorem Approved.refl (w : World δ) : Approved w w :=
  ⟨rfl, rfl, rfl, rfl, fun _ => rfl⟩

omit [Contracts δ] in
theorem Approved.trans {w'' : World δ} (h : Approved w w') (h' : Approved w' w'') :
    Approved w w'' :=
  ⟨h'.proxy.trans h.proxy, h'.distributed.trans h.distributed, h'.locker.trans h.locker,
    h'.now.trans h.now, fun k => (h'.balance k).trans (h.balance k)⟩

omit [Contracts δ] in
theorem approveMax_eq_ok {spender : Address} (h : w.approveMax token spender = .ok w') :
    Approved w w' := by
  obtain ⟨t₁, h₁, h⟩ := bind_eq_ok.1 h
  obtain ⟨t₂, h₂, h⟩ := bind_eq_ok.1 h
  cases h
  have hb₁ := (Erc20.approve_eq_ok (Erc20.safeApprove_eq_ok h₁)).1
  have hb₂ := (Erc20.approve_eq_ok (Erc20.safeApprove_eq_ok h₂)).1
  refine ⟨rfl, rfl, rfl, rfl, fun k => ?_⟩
  unfold World.withToken
  rw [Locker.World.balance_update]
  split_ifs with hk
  · rw [hb₂, hb₁, hk]
    rfl
  · rfl

omit [Contracts δ] in
theorem Approved.elsewhere (h : Approved w w') : Locker.Elsewhere w.chain w'.chain :=
  ⟨h.locker, h.now.ge, fun k => (congrFun (h.balance k) _).ge⟩

omit [Contracts δ] in
theorem Approved.held (h : Approved w w') (k : Address) : w'.held k = w.held k := by
  unfold World.held
  rw [h.balance, h.proxy]

omit [Contracts δ] in
theorem sendIncentive_eq_ok {n : ℕ} {r : World δ × ℕ × ℕ}
    (h : w.sendIncentive sender token n = .ok r) :
    r.2.1 = n * w.proxy.callIncentive / denominator ∧ r.2.1 + r.2.2 = n ∧
      ∃ t, (w.chain.tokens token).transfer w.proxy.self sender r.2.1 = .ok t ∧
        r.1 = w.withToken token t := by
  obtain ⟨x, hx, h⟩ := bind_eq_ok.1 h
  obtain ⟨i, hi, h⟩ := bind_eq_ok.1 h
  obtain ⟨m, hm, h⟩ := bind_eq_ok.1 h
  obtain ⟨t, ht, h⟩ := bind_eq_ok.1 h
  cases h
  obtain ⟨-, rfl⟩ := umul_eq_ok.1 hx
  obtain ⟨-, rfl⟩ := udiv_eq_ok.1 hi
  obtain ⟨hle, rfl⟩ := usub_eq_ok.1 hm
  exact ⟨rfl, Nat.add_sub_cancel' hle, t, ht, rfl⟩

/-- All that the proxy holds of a token is distributed, on a call of `sender`, who gets the
incentive. The locker gets the rest, and nothing else moves. -/
structure Distributes (w : World δ) (sender : Address) (w' : World δ) (d : Distribution) :
    Prop where
  proxy : w'.proxy = w.proxy
  incentive : d.incentiveAmount = w.held d.token * w.proxy.callIncentive / denominator
  split : d.incentiveAmount + d.amount = w.held d.token
  pos : 0 < d.amount
  registered : w.chain.locker.rewards.rewardDistributors d.token w.proxy.self = true
  steps : Locker.Steps w.chain
    [⟨w.chain.now, w.proxy.self, .queueNewRewards d.token d.amount⟩] w'.chain
  distributed : w'.distributed = w.distributed ++ [d]
  balance : ∀ k, w'.chain.balance k =
    if k = d.token then
      move (move (w.chain.balance k) w.proxy.self sender d.incentiveAmount)
        w.proxy.self w.chain.locker.config.self d.amount
    else w.chain.balance k

omit [Contracts δ] in
theorem Distributes.held {d : Distribution} (h : Distributes w sender w' d)
    (hsender : sender ≠ w.proxy.self) (hlocker : w.proxy.self ≠ w.chain.locker.config.self) :
    w'.held d.token = 0 := by
  have hsplit : d.incentiveAmount + d.amount = w.chain.balance d.token w.proxy.self := h.split
  unfold World.held
  rw [h.balance, if_pos rfl, h.proxy, move_src _ _ hlocker, move_src _ _ hsender.symm]
  omega

omit [Contracts δ] in
theorem Distributes.held_of_ne {d : Distribution} (h : Distributes w sender w' d) {k : Address}
    (hk : k ≠ d.token) : w'.held k = w.held k := by
  unfold World.held
  rw [h.balance, if_neg hk, h.proxy]

/-- A distribution, with or without approvals before the locker is called. -/
theorem distributes {r : World δ × ℕ × ℕ} {w₁ : World δ} (h0 : w.proxy.self ≠ 0)
    (hlocker : w.proxy.self ≠ w.chain.locker.config.self)
    (hrewards : w.proxy.rewards = w.chain.locker.config.self)
    (hr : w.sendIncentive sender token (w.held token) = .ok r) (ha : Approved r.1 w₁)
    (h : w₁.queueNewRewards token r.2.1 r.2.2 = .ok w') :
    Distributes w sender w' ⟨token, r.2.1, r.2.2⟩ := by
  obtain ⟨hinc, hsplit, t, ht, hr₁⟩ := sendIncentive_eq_ok hr
  have hproxy : w₁.proxy = w.proxy := by rw [ha.proxy, hr₁]; rfl
  have hl : w₁.chain.locker = w.chain.locker := by rw [ha.locker, hr₁]; rfl
  have hn : w₁.chain.now = w.chain.now := by rw [ha.now, hr₁]; rfl
  unfold World.queueNewRewards at h
  rw [hproxy, hl, if_pos hrewards] at h
  obtain ⟨chain, hq, h⟩ := bind_eq_ok.1 h
  cases h
  have hb := (Erc20.transfer_eq_ok ht).2.2.2.1
  have hpos : 0 < r.2.2 := (require_bind_eq_ok.1 (require_bind_eq_ok.1 hq).2).1
  obtain ⟨hreg, w₂, hmv, -, htokens, -⟩ := Locker.queueNewRewards_eq_ok hq
  have hsent : Locker.Elsewhere w.chain r.1.chain := by
    rw [hr₁]
    refine elsewhere_withToken ?_
    rw [hb]
    exact Erc20.le_move _ _ hlocker
  have hlself : w₁.chain.locker.config.self = w.chain.locker.config.self := by rw [hl]
  -- the balances after the incentive, and after the pull of the locker
  have hincentive : ∀ k, w₁.chain.balance k = if k = token then
      move (w.chain.balance k) w.proxy.self sender r.2.1 else w.chain.balance k := by
    intro k
    rw [ha.balance, hr₁]
    unfold World.withToken
    rw [Locker.World.balance_update]
    split_ifs with hk
    · rw [hb, hk]
      rfl
    · rfl
  refine ⟨rfl, hinc, hsplit, hpos, ?_, ?_, ?_, fun k => ?_⟩
  · rw [← hl]
    exact hreg
  · have hmoved : Locker.Steps w.chain [] w₁.chain :=
      .elsewhere (.elsewhere .refl hsent) ha.elsewhere
    rw [← hn]
    exact .call hmoved ⟨h0, hlself ▸ hlocker⟩ hq
  · dsimp only
    rw [ha.distributed, hr₁]
    rfl
  · have hk : chain.balance k = w₂.balance k :=
      congrArg (fun t : Address → Erc20 Address => (t k).balanceOf) htokens
    dsimp only
    rw [hk, hmv.balance, hlself]
    split_ifs with he
    · rw [← he, hincentive, if_pos he]
    · rw [hincentive, if_neg he]

/-- All CRV was deposited, for at least what the caller or the settings ask for, and nothing
else was done. -/
structure Converted (w : World δ) (_minOut : ℕ) (w' : World δ) : Prop where
  deposit : (w.held w.proxy.crv = 0 ∧ w' = w) ∨
    ∃ minOut r, w.minOut _minOut (w.held w.proxy.crv) = .ok minOut ∧
      Contracts.deposit w.contracts w.proxy.crvDepositorWrapper w.proxy.self
        (w.held w.proxy.crv) minOut w.chain.tokens = .ok r ∧
      w' = { w with chain := { w.chain with tokens := r.2 }, contracts := r.1 }
  proxy : w'.proxy = w.proxy
  distributed : w'.distributed = w.distributed
  chain : Locker.Elsewhere w.chain w'.chain
  crv : w'.held w.proxy.crv = 0
  held : ∀ k, k ≠ w.proxy.crv → w.held k ≤ w'.held k

theorem convert_eq_ok {n : ℕ} (hlaw : Lawful δ w.proxy.crv w.chain.locker.config.self)
    (hlocker : w.proxy.self ≠ w.chain.locker.config.self) (h : w.convert n = .ok w') :
    Converted w n w' := by
  unfold World.convert at h
  dsimp only at h
  split_ifs at h with hpos
  · obtain ⟨minOut, hmin, h⟩ := bind_eq_ok.1 h
    obtain ⟨r, hr, h⟩ := bind_eq_ok.1 h
    cases h
    exact ⟨.inr ⟨minOut, r, hmin, hr, rfl⟩, rfl, rfl, ⟨rfl, le_rfl, hlaw.spares hr hlocker⟩,
      Nat.add_eq_right.1 (hlaw.takes hr), hlaw.gives hr⟩
  · cases h
    have hzero : w.held w.proxy.crv = 0 := Nat.eq_zero_of_not_pos hpos
    exact ⟨.inl ⟨hzero, rfl⟩, rfl, rfl, ⟨rfl, le_rfl, fun _ => le_rfl⟩, hzero, fun _ _ => le_rfl⟩

/-- What `_distribute` does : the CRV is deposited, and all cvxCRV is distributed. -/
theorem distribute_eq_ok {n : ℕ} (hlaw : Lawful δ w.proxy.crv w.chain.locker.config.self)
    (h0 : w.proxy.self ≠ 0) (hlocker : w.proxy.self ≠ w.chain.locker.config.self)
    (hrewards : w.proxy.rewards = w.chain.locker.config.self)
    (h : w._distribute sender n = .ok w') : ∃ w₁, Converted w n w₁ ∧
      ((w₁.held w.proxy.cvxCrv = 0 ∧ w' = w₁) ∨
        ∃ d, d.token = w.proxy.cvxCrv ∧ Distributes w₁ sender w' d) := by
  obtain ⟨w₁, h₁, h⟩ := bind_eq_ok.1 h
  have hc := convert_eq_ok hlaw hlocker h₁
  refine ⟨w₁, hc, ?_⟩
  dsimp only at h
  rw [hc.proxy] at h
  split_ifs at h with hpos
  · obtain ⟨r, hr, h⟩ := bind_eq_ok.1 h
    have hl := hc.chain.locker
    exact .inr ⟨_, rfl, distributes (hc.proxy ▸ h0) (by rw [hc.proxy, hl]; exact hlocker)
      (by rw [hc.proxy, hl]; exact hrewards) hr (.refl _) h⟩
  · cases h
    exact .inl ⟨Nat.eq_zero_of_not_pos hpos, rfl⟩

theorem distributeOther_eq_ok (h0 : w.proxy.self ≠ 0)
    (hlocker : w.proxy.self ≠ w.chain.locker.config.self)
    (hrewards : w.proxy.rewards = w.chain.locker.config.self)
    (h : w.distributeOther sender token = .ok w') :
    token ≠ w.proxy.crv ∧ ((w.held token = 0 ∧ w' = w) ∨
      ∃ d, d.token = token ∧ Distributes w sender w' d) := by
  obtain ⟨⟨hcrv, -⟩, h⟩ := require_bind_eq_ok.1 h
  refine ⟨hcrv, ?_⟩
  dsimp only at h
  split_ifs at h with hpos
  · obtain ⟨r, hr, h⟩ := bind_eq_ok.1 h
    obtain ⟨w₁, h₁, h⟩ := bind_eq_ok.1 h
    exact .inr ⟨_, rfl, distributes h0 hlocker hrewards hr (approveMax_eq_ok h₁) h⟩
  · cases h
    exact .inl ⟨Nat.eq_zero_of_not_pos hpos, rfl⟩

end Aura.StakingProxy

namespace Aura.Locker

/-- The staking token of the locker is fixed. -/
theorem Steps.stakingToken_eq {w w' : World} {log : List Event} (h : Steps w log w') :
    w'.locker.config.stakingToken = w.locker.config.stakingToken := by
  have hP : Inductive fun _ _ s => s.config.stakingToken = w.locker.config.stakingToken :=
    { time := fun h _ => h
      change := by
        intro _ _ s s' h hch
        cases hch with
        | other _ _ _ hst => rwa [hst]
        | checkpoint _ _ hc => rwa [hc]
        | lock hl => rwa [hl.config]
        | expire hx => rwa [hx.config]
        | relock hx hl => rwa [hl.config, hx.config]
        | emergencyWithdraw _ _ hs => rwa [hs]
      delegate := by
        intro _ _ s s' _ _ h hd
        obtain ⟨-, -, -, _, _, -, -, -, hs⟩ := delegate_eq_ok hd
        rwa [hs]
      log := fun h _ => h }
  exact hP.steps [] rfl h

end Aura.Locker

namespace Aura.StakingProxy

variable {δ : Type} {w w' w'' : World δ} {sender token : Address}

/-! ## What a run does -/

/-- The rewards that `self` queued in a run of the locker. -/
def queuedBy (self : Address) (log : List Locker.Event) : List (Address × ℕ) :=
  log.filterMap fun e =>
    match e.call with
    | .queueNewRewards token n => if e.sender = self then some (token, n) else none
    | _ => none

/-- What was distributed of a token, incentives included. -/
def given (l : List Distribution) (token : Address) : ℕ :=
  (l.map fun d => if d.token = token then d.incentiveAmount + d.amount else 0).sum

/-- The caller gets at most a percent, and it is a token that the locker takes as a reward. -/
structure Fair (w : World δ) (d : Distribution) : Prop where
  pos : 0 < d.amount
  incentive_le : d.incentiveAmount * 100 ≤ d.incentiveAmount + d.amount
  crv_ne : d.token ≠ w.proxy.crv
  stakingToken_ne : d.token ≠ w.chain.locker.config.stakingToken

/-- What a run does from `w` to `w'`. -/
structure Progress (w w' : World δ) : Prop where
  self : w'.proxy.self = w.proxy.self
  crv : w'.proxy.crv = w.proxy.crv
  cvx : w'.proxy.cvx = w.proxy.cvx
  cvxCrv : w'.proxy.cvxCrv = w.proxy.cvxCrv
  rewards : w'.proxy.rewards = w.proxy.rewards
  callIncentive : w.proxy.callIncentive ≤ 100 → w'.proxy.callIncentive ≤ 100
  steps : ∃ log new, Locker.Steps w.chain log w'.chain ∧ w'.distributed = w.distributed ++ new ∧
    queuedBy w.proxy.self log = new.map (fun d => (d.token, d.amount)) ∧ ∀ d ∈ new, Fair w d
  held : ∀ k, k = w.proxy.cvx ∨ k = w.proxy.cvxCrv →
    w.held k + given w.distributed k ≤ w'.held k + given w'.distributed k

theorem queuedBy_append (self : Address) (l l' : List Locker.Event) :
    queuedBy self (l ++ l') = queuedBy self l ++ queuedBy self l' :=
  List.filterMap_append

theorem given_append (l l' : List Distribution) (token : Address) :
    given (l ++ l') token = given l token + given l' token := by
  unfold given
  rw [List.map_append, List.sum_append]

theorem Progress.refl (w : World δ) : Progress w w :=
  ⟨rfl, rfl, rfl, rfl, rfl, id, ⟨[], [], .refl, (List.append_nil _).symm, rfl, nofun⟩,
    fun _ _ => le_rfl⟩

theorem Progress.trans (h : Progress w w') (h' : Progress w' w'') : Progress w w'' := by
  refine ⟨h'.self.trans h.self, h'.crv.trans h.crv, h'.cvx.trans h.cvx, h'.cvxCrv.trans h.cvxCrv,
    h'.rewards.trans h.rewards, fun hle => h'.callIncentive (h.callIncentive hle), ?_,
    fun k hk => (h.held k hk).trans (h'.held k (by rwa [h.cvx, h.cvxCrv]))⟩
  obtain ⟨log, new, hs, hd, hq, hf⟩ := h.steps
  obtain ⟨log', new', hs', hd', hq', hf'⟩ := h'.steps
  refine ⟨log ++ log', new ++ new', hs.trans hs', ?_, ?_, fun d hd => ?_⟩
  · rw [hd', hd, List.append_assoc]
  · rw [h.self] at hq'
    rw [queuedBy_append, hq, hq', List.map_append]
  · rcases List.mem_append.1 hd with hd | hd
    · exact hf d hd
    · obtain ⟨hpos, hle, hcrv, hst⟩ := hf' d hd
      exact ⟨hpos, hle, h.crv ▸ hcrv, hs.stakingToken_eq ▸ hst⟩

/-- A step that distributes nothing. -/
theorem Progress.quiet {log : List Locker.Event} (hproxy : w'.proxy = w.proxy)
    (hd : w'.distributed = w.distributed) (hs : Locker.Steps w.chain log w'.chain)
    (hq : queuedBy w.proxy.self log = [])
    (hheld : ∀ k, k = w.proxy.cvx ∨ k = w.proxy.cvxCrv → w.held k ≤ w'.held k) :
    Progress w w' := by
  refine ⟨by rw [hproxy], by rw [hproxy], by rw [hproxy], by rw [hproxy], by rw [hproxy],
    fun h => by rwa [hproxy], ⟨log, [], hs, by rw [hd, List.append_nil], hq, nofun⟩, fun k hk => ?_⟩
  rw [hd]
  exact Nat.add_le_add_right (hheld k hk) _

theorem Approved.progress (h : Approved w w') : Progress w w' :=
  .quiet h.proxy h.distributed (.elsewhere .refl h.elsewhere) rfl fun k _ => (h.held k).ge

/-- A setting of the owner. -/
theorem Progress.settings {p : AuraStakingProxy} (hself : p.self = w.proxy.self)
    (hcrv : p.crv = w.proxy.crv) (hcvx : p.cvx = w.proxy.cvx) (hcvxCrv : p.cvxCrv = w.proxy.cvxCrv)
    (hrewards : p.rewards = w.proxy.rewards)
    (hinc : w.proxy.callIncentive ≤ 100 → p.callIncentive ≤ 100) :
    Progress w { w with proxy := p } := by
  refine ⟨hself, hcrv, hcvx, hcvxCrv, hrewards, hinc,
    ⟨[], [], .refl, (List.append_nil _).symm, rfl, nofun⟩, fun k _ => ?_⟩
  unfold World.held
  dsimp only
  rw [hself]

/-- What every world of a run is. -/
structure Sound (w : World δ) : Prop where
  chain : ∃ log, Locker.Reachable log w.chain
  rewards : w.proxy.rewards = w.chain.locker.config.self
  self_ne : w.proxy.self ≠ 0
  locker_ne : w.proxy.self ≠ w.chain.locker.config.self
  crv_ne : w.proxy.crv ≠ w.proxy.cvx ∧ w.proxy.crv ≠ w.proxy.cvxCrv
  callIncentive : w.proxy.callIncentive ≤ 100

theorem Deployed.sound (h : Deployed w) : Sound w := by
  refine ⟨h.chain, h.rewards, h.self_ne, h.locker_ne, h.crv_ne, ?_⟩
  obtain ⟨_, _, _, _, _, _, _, hproxy⟩ := h.proxy
  rw [hproxy]
  exact show 25 ≤ 100 by decide

theorem Sound.progress (h : Sound w) (hp : Progress w w') : Sound w' := by
  obtain ⟨log, _, hs, -, -, -⟩ := hp.steps
  obtain ⟨log₀, w₀, h₀, hs₀⟩ := h.chain
  refine ⟨⟨_, w₀, h₀, hs₀.trans hs⟩, ?_, hp.self ▸ h.self_ne, ?_, ?_,
    hp.callIncentive h.callIncentive⟩
  · rw [hp.rewards, hs.self_eq]
    exact h.rewards
  · rw [hp.self, hs.self_eq]
    exact h.locker_ne
  · rw [hp.crv, hp.cvx, hp.cvxCrv]
    exact h.crv_ne

theorem Sound.distributes {d : Distribution} (h : Sound w) (hd : Distributes w sender w' d)
    (hsender : sender ≠ w.proxy.self) (hcrv : d.token ≠ w.proxy.crv) : Progress w w' := by
  obtain ⟨log₀, hr⟩ := h.chain
  have hsolvent := hr.solvent
  have hstaking : d.token ≠ w.chain.locker.config.stakingToken := fun he =>
    hsolvent.notReward (he ▸ hsolvent.registered.distributors _ _ hd.registered)
  have hinc : d.incentiveAmount * 100 ≤ d.incentiveAmount + d.amount := by
    rw [hd.split, hd.incentive]
    have hle := Nat.mul_le_mul_left (w.held d.token) h.callIncentive
    have hfloor := Nat.div_mul_le_self (w.held d.token * w.proxy.callIncentive) denominator
    unfold denominator at hfloor ⊢
    omega
  refine ⟨by rw [hd.proxy], by rw [hd.proxy], by rw [hd.proxy], by rw [hd.proxy],
    by rw [hd.proxy], fun h => by rwa [hd.proxy], ⟨_, [d], hd.steps, hd.distributed, ?_, ?_⟩,
    fun k _ => ?_⟩
  · unfold queuedBy
    rw [List.filterMap_cons]
    simp
  · intro d' hd'
    rw [List.mem_singleton.1 hd']
    exact ⟨hd.pos, hinc, hcrv, hstaking⟩
  · rw [hd.distributed, given_append]
    by_cases hk : d.token = k
    · subst hk
      have hone : given [d] d.token = w.held d.token := by simp [given, hd.split]
      rw [hd.held hsender h.locker_ne, hone]
      omega
    · rw [hd.held_of_ne (Ne.symm hk)]
      omega

theorem Elsewhere.progress (h : Elsewhere w w') : Progress w w' :=
  .quiet h.proxy h.distributed (.elsewhere .refl h.chain) rfl fun k _ => h.held k

variable [Contracts δ] {c : Call}

/-- For the proxy, a call of the locker by others brings tokens at most. -/
theorem Sound.locker {d : Locker.Call} (h : Sound w) (hc : IsCaller w sender)
    (hx : exec w sender (.locker d) = .ok w') : Progress w w' := by
  obtain ⟨chain, hchain, hw⟩ := bind_eq_ok.1 hx
  cases hw
  refine .quiet rfl rfl (.call .refl hc.1 hchain) ?_ fun k _ =>
    Locker.exec_balance_le hc.2.symm h.locker_ne hchain k
  unfold queuedBy
  cases d <;> simp [hc.2]

theorem Sound._distribute {n : ℕ} (h : Sound w)
    (hlaw : Lawful δ w.proxy.crv w.chain.locker.config.self) (hc : IsCaller w sender)
    (hx : w._distribute sender n = .ok w') : Progress w w' := by
  obtain ⟨w₁, hconv, hrest⟩ := distribute_eq_ok hlaw h.self_ne h.locker_ne h.rewards hx
  have h₁ : Progress w w₁ := by
    refine .quiet hconv.proxy hconv.distributed (.elsewhere .refl hconv.chain) rfl fun k hk =>
      hconv.held k ?_
    rcases hk with rfl | rfl
    · exact h.crv_ne.1.symm
    · exact h.crv_ne.2.symm
  rcases hrest with ⟨-, rfl⟩ | ⟨d, htoken, hd⟩
  · exact h₁
  · refine h₁.trans ((h.progress h₁).distributes hd (hconv.proxy ▸ hc.2) ?_)
    rw [htoken, hconv.proxy]
    exact h.crv_ne.2.symm

/-- What a call does. -/
theorem Sound.exec (h : Sound w) (hlaw : Lawful δ w.proxy.crv w.chain.locker.config.self)
    (hc : IsCaller w sender) (hkeep : c.replaces = false)
    (hx : StakingProxy.exec w sender c = .ok w') : Progress w w' := by
  cases c with
  | locker d => exact h.locker hc hx
  | setCrvDepositorWrapper a n =>
    obtain ⟨-, hx⟩ := require_bind_eq_ok.1 hx
    obtain ⟨-, hx⟩ := require_bind_eq_ok.1 hx
    cases hx
    exact .settings rfl rfl rfl rfl rfl id
  | setKeeper a | setPendingOwner a =>
    obtain ⟨-, hx⟩ := require_bind_eq_ok.1 hx
    cases hx
    exact .settings rfl rfl rfl rfl rfl id
  | applyPendingOwner =>
    obtain ⟨-, hx⟩ := require_bind_eq_ok.1 hx
    obtain ⟨-, hx⟩ := require_bind_eq_ok.1 hx
    cases hx
    exact .settings rfl rfl rfl rfl rfl id
  | setCallIncentive n =>
    obtain ⟨-, hx⟩ := require_bind_eq_ok.1 hx
    obtain ⟨hle, hx⟩ := require_bind_eq_ok.1 hx
    cases hx
    exact .settings rfl rfl rfl rfl rfl fun _ => hle
  | setRewards a => cases hkeep
  | setApprovals =>
    obtain ⟨w₁, h₁, hx⟩ := bind_eq_ok.1 hx
    exact ((approveMax_eq_ok h₁).trans (approveMax_eq_ok hx)).progress
  | rescueToken t dst =>
    obtain ⟨-, hx⟩ := require_bind_eq_ok.1 hx
    obtain ⟨⟨-, hcvx, hcvxCrv⟩, hx⟩ := require_bind_eq_ok.1 hx
    obtain ⟨t', ht, hx⟩ := bind_eq_ok.1 hx
    cases hx
    have hchain : Locker.Elsewhere w.chain (w.withToken t t').chain := by
      refine elsewhere_withToken ?_
      rw [(Erc20.transfer_eq_ok ht).2.2.2.1]
      exact Erc20.le_move _ _ h.locker_ne
    refine .quiet rfl rfl (.elsewhere .refl hchain) rfl fun k hk => ?_
    refine (held_withToken_of_ne _ fun he => ?_).ge
    rcases hk with rfl | rfl
    · exact hcvx he.symm
    · exact hcvxCrv he.symm
  | distributeMin n =>
    obtain ⟨-, hx⟩ := require_bind_eq_ok.1 hx
    exact h._distribute hlaw hc hx
  | distribute =>
    obtain ⟨-, hx⟩ := require_bind_eq_ok.1 hx
    exact h._distribute hlaw hc hx
  | distributeOther t =>
    obtain ⟨hcrv, ⟨-, rfl⟩ | ⟨d, htoken, hd⟩⟩ :=
      distributeOther_eq_ok h.self_ne h.locker_ne h.rewards hx
    · exact .refl _
    · exact h.distributes hd hc.2 (htoken ▸ hcrv)

/-- What a run does. -/
theorem Sound.steps {log : Log} (h : Sound w)
    (hlaw : Lawful δ w.proxy.crv w.chain.locker.config.self)
    (hs : (system δ).Steps w log w') (hkeep : KeepsRewards log) : Progress w w' := by
  induction hs with
  | refl => exact .refl _
  | elsewhere _ he ih => exact (ih hkeep).trans (Elsewhere.progress he)
  | call _ hc hx ih =>
    have hp := ih fun e he => hkeep e (List.mem_append_left _ he)
    have hlast := hkeep _ (List.mem_append_right _ (List.mem_singleton_self _))
    obtain ⟨_, _, hlocker, -⟩ := hp.steps
    exact hp.trans ((h.progress hp).exec (by rwa [hp.crv, hlocker.self_eq]) hc hlast hx)

variable {w₀ : World δ} {log : Log}

/-- Whatever the owner, the keeper and others do, as long as the owner does not replace the
locker : the run is one of the locker, in which the proxy queues exactly what its distributions
say; a distribution leaves no CRV and no cvxCRV in the proxy. It deposits the CRV, and of all
cvxCRV that is there then the caller gets the incentive, which is at most a percent, and the
locker the rest; so it is with another token, all of it. From any point of the run on, AURA and
cvxCRV leave the proxy only by distributions. -/
theorem proxy_distributes (hlaw : Lawful δ w₀.proxy.crv w₀.chain.locker.config.self)
    (h₀ : Deployed w₀) (hs : (system δ).Steps w₀ log w) (hkeep : KeepsRewards log) :
    (∃ lockerLog, Locker.Steps w₀.chain lockerLog w.chain ∧
      queuedBy w.proxy.self lockerLog = w.distributed.map fun d => (d.token, d.amount)) ∧
    (∀ d ∈ w.distributed, 0 < d.amount ∧
      d.incentiveAmount * 100 ≤ d.incentiveAmount + d.amount) ∧
    w.proxy.callIncentive ≤ 100 ∧
    (∀ sender n w', IsCaller w sender → w._distribute sender n = .ok w' →
      w'.held w.proxy.crv = 0 ∧ w'.held w.proxy.cvxCrv = 0 ∧
      ∃ w₁, Converted w n w₁ ∧ ((w₁.held w.proxy.cvxCrv = 0 ∧ w' = w₁) ∨
        ∃ d, d.token = w.proxy.cvxCrv ∧ Distributes w₁ sender w' d)) ∧
    (∀ sender token w', IsCaller w sender → w.distributeOther sender token = .ok w' →
      (w.held token = 0 ∧ w' = w) ∨ ∃ d, d.token = token ∧ Distributes w sender w' d) ∧
    ∀ log' w', (system δ).Steps w log' w' → KeepsRewards log' →
      ∀ k, k = w.proxy.cvx ∨ k = w.proxy.cvxCrv →
        w.held k + given w.distributed k ≤ w'.held k + given w'.distributed k := by
  have hp := h₀.sound.steps hlaw hs hkeep
  have hsound := h₀.sound.progress hp
  obtain ⟨lockerLog, new, hlocker, hd, hq, hfair⟩ := hp.steps
  rw [h₀.distributed, List.nil_append] at hd
  have hlaw' : Lawful δ w.proxy.crv w.chain.locker.config.self := by
    rwa [hp.crv, hlocker.self_eq]
  refine ⟨⟨lockerLog, hlocker, ?_⟩, fun d hmem => ?_, hsound.callIncentive,
    fun sender n w' hc hx => ?_, fun sender token w' hc hx => ?_,
    fun log' w' hs' hkeep' => (hsound.steps hlaw' hs' hkeep').held⟩
  · rw [hp.self, hq, hd]
  · obtain ⟨hpos, hle, -, -⟩ := hfair d (hd ▸ hmem)
    exact ⟨hpos, hle⟩
  · obtain ⟨w₁, hconv, hrest⟩ :=
      distribute_eq_ok hlaw' hsound.self_ne hsound.locker_ne hsound.rewards hx
    have hzero : w'.held w.proxy.crv = 0 ∧ w'.held w.proxy.cvxCrv = 0 := by
      rcases hrest with ⟨hzero, rfl⟩ | ⟨d, htoken, hd⟩
      · exact ⟨hconv.crv, hzero⟩
      · have hself : sender ≠ w₁.proxy.self := hconv.proxy ▸ hc.2
        have hlself : w₁.proxy.self ≠ w₁.chain.locker.config.self := by
          rw [hconv.proxy, hconv.chain.locker]
          exact hsound.locker_ne
        rw [← htoken]
        refine ⟨?_, hd.held hself hlself⟩
        rw [hd.held_of_ne (htoken ▸ hsound.crv_ne.2)]
        exact hconv.crv
    exact ⟨hzero.1, hzero.2, w₁, hconv, hrest⟩
  · exact (distributeOther_eq_ok hsound.self_ne hsound.locker_ne hsound.rewards hx).2

/-- AURA that gets into the proxy stays there : in no run does it leave, and it cannot be
distributed. -/
theorem aura_stays (hlaw : Lawful δ w₀.proxy.crv w₀.chain.locker.config.self)
    (h₀ : Deployed w₀) (hcvx : w₀.proxy.cvx = w₀.chain.locker.config.stakingToken)
    (hs : (system δ).Steps w₀ log w) (hkeep : KeepsRewards log) :
    (∀ log' w', (system δ).Steps w log' w' → KeepsRewards log' →
      w.held w.proxy.cvx ≤ w'.held w.proxy.cvx) ∧
    ∀ sender w', IsCaller w sender → 0 < w.held w.proxy.cvx →
      w.distributeOther sender w.proxy.cvx ≠ .ok w' := by
  have hp := h₀.sound.steps hlaw hs hkeep
  have hsound := h₀.sound.progress hp
  obtain ⟨_, _, hlocker, -⟩ := hp.steps
  have hcvx' : w.proxy.cvx = w.chain.locker.config.stakingToken := by
    rw [hp.cvx, hcvx, hlocker.stakingToken_eq]
  refine ⟨fun log' w' hs' hkeep' => ?_, fun sender w' hc hpos hx => ?_⟩
  · have hp' := hsound.steps (by rwa [hp.crv, hlocker.self_eq]) hs' hkeep'
    have hheld := hp'.held _ (.inl rfl)
    obtain ⟨_, new, -, hd, -, hfair⟩ := hp'.steps
    have hnone : given new w.proxy.cvx = 0 := by
      refine List.sum_eq_zero fun x hx => ?_
      obtain ⟨d, hmem, rfl⟩ := List.mem_map.1 hx
      exact if_neg fun he => (hfair d hmem).stakingToken_ne (he.trans hcvx')
    rw [hd, given_append, hnone, Nat.add_zero] at hheld
    exact Nat.le_of_add_le_add_right hheld
  · obtain ⟨hcrv, ⟨hzero, -⟩ | ⟨d, htoken, hd⟩⟩ :=
      distributeOther_eq_ok hsound.self_ne hsound.locker_ne hsound.rewards hx
    · exact hpos.ne' hzero
    · obtain ⟨_, new, -, hnew, -, hfair⟩ := (hsound.distributes hd hc.2 (htoken ▸ hcrv)).steps
      have hmem : d ∈ new := by
        rw [hd.distributed] at hnew
        rw [← List.append_cancel_left hnew]
        exact List.mem_singleton_self d
      exact (hfair d hmem).stakingToken_ne (htoken.trans hcvx')

/-! ## Runs with a wrapper that mints -/

/-- Wrappers that mint as much cvxCRV as they take CRV. -/
structure Minters (crv cvxCrv : Address) where

variable {crv cvxCrv : Address}

instance : Contracts (Minters crv cvxCrv) where
  getMinOut _ _ _amount _outputBps := .ok (_amount * _outputBps / 10000)
  deposit b wrapper sender _amount _minOut tokens := do
    require (sender ≠ wrapper ∧ _minOut ≤ _amount) "BAL#208"
    let t ← (tokens crv).transferFrom wrapper sender wrapper _amount
    let s ← (tokens cvxCrv).mint sender _amount
    .ok (b, update (update tokens crv t) cvxCrv s)
  queueNewRewards b rewards sender _token _amount tokens := do
    let t ← (tokens _token).transferFrom rewards sender rewards _amount
    .ok (b, update tokens _token t)

theorem Minters.deposit_eq_ok {b : Minters crv cvxCrv} {wrapper sender : Address} {n k : ℕ}
    {tokens : Address → Erc20 Address} {r : Minters crv cvxCrv × (Address → Erc20 Address)}
    (hne : crv ≠ cvxCrv) (h : Contracts.deposit b wrapper sender n k tokens = .ok r) :
    sender ≠ wrapper ∧ n ≤ (tokens crv).balanceOf sender ∧
      (r.2 crv).balanceOf = move (tokens crv).balanceOf sender wrapper n ∧
      ∀ token, token ≠ crv → ∀ a, (tokens token).balanceOf a ≤ (r.2 token).balanceOf a := by
  obtain ⟨⟨hw, -⟩, h⟩ := require_bind_eq_ok.1 h
  obtain ⟨t, ht, h⟩ := bind_eq_ok.1 h
  obtain ⟨s, hs, h⟩ := bind_eq_ok.1 h
  cases h
  obtain ⟨-, hle, hb, -⟩ := Erc20.transferFrom_eq_ok ht
  refine ⟨hw, hle, ?_, fun token htoken a => ?_⟩
  · dsimp only
    rw [update_of_ne hne, update_self, hb]
  · dsimp only
    by_cases he : token = cvxCrv
    · subst he
      rw [update_self, (Erc20.mint_eq_ok hs).2.1]
      by_cases ha : a = sender
      · subst ha
        rw [update_self]
        exact Nat.le_add_right _ _
      · rw [update_of_ne ha]
    · rw [update_of_ne he, update_of_ne htoken]

theorem Minters.lawful (hne : crv ≠ cvxCrv) (locker : Address) :
    Lawful (Minters crv cvxCrv) crv locker where
  takes h := by
    obtain ⟨hw, hle, hb, -⟩ := deposit_eq_ok hne h
    rw [hb, move_src _ _ hw]
    exact Nat.sub_add_cancel hle
  gives h token htoken := (deposit_eq_ok hne h).2.2.2 token htoken _
  spares h hlocker token := by
    obtain ⟨-, -, hb, hothers⟩ := deposit_eq_ok hne h
    by_cases htoken : token = crv
    · subst htoken
      rw [hb]
      exact Erc20.le_move _ _ hlocker
    · exact hothers token htoken _

/-- A proxy at the address 400 of the account 101, with CRV at 300 and the wrapper 401. It holds
CRV. -/
def World.initial : World (Minters 300 201) where
  chain := { Locker.World.initial (20 * Locker.rewardsDuration) with
    tokens := update (Locker.World.initial 0).tokens 300
      (Erc20.single 400 (10 ^ 24) (by norm_num) fun _ _ => 0) }
  contracts := ⟨⟩
  proxy := deploy 400 101 100 300 200 201 401 9950
  distributed := []

theorem World.initial_deployed : Deployed World.initial where
  chain := ⟨[], _, ⟨show 0 < 20 * Locker.rewardsDuration by decide,
    show (100 : Address) ≠ 0 by decide, rfl⟩, .refl⟩
  proxy := ⟨_, _, _, _, _, _, _, rfl⟩
  rewards := rfl
  self_ne := show (400 : Address) ≠ 0 by decide
  locker_ne := show (400 : Address) ≠ 100 by decide
  crv_ne := ⟨show (300 : Address) ≠ 200 by decide, show (300 : Address) ≠ 201 by decide⟩
  distributed := rfl

/-- The world at a later time. -/
def World.at (w : World (Minters crv cvxCrv)) (now : ℕ) : World (Minters crv cvxCrv) :=
  { w with chain := { w.chain with now } }

theorem World.elsewhere_at (w : World (Minters crv cvxCrv)) (now : ℕ)
    (h : (system (Minters crv cvxCrv)).now w ≤ now) :
    (system (Minters crv cvxCrv)).Elsewhere w (w.at now) :=
  ⟨⟨rfl, h, fun _ => le_rfl⟩, rfl, rfl, fun _ => le_rfl⟩

/-- The CRV is distributed, for an incentive of a quarter of a percent. -/
theorem proxy_distributes_run : ∃ w, (system (Minters 300 201)).Steps World.initial
      (let now := 20 * Locker.rewardsDuration
      [⟨now, 1, .locker (.lock 1 (10 ^ 20))⟩, ⟨now, 101, .locker (.addReward 201 400)⟩,
        ⟨now, 1, .setApprovals⟩, ⟨now, 5, .distribute⟩]) w ∧
    w.distributed = [⟨201, 25 * 10 ^ 20, 9975 * 10 ^ 20⟩] ∧
    w.chain.balance 201 5 = 25 * 10 ^ 20 ∧
    ∃ lockerLog, queuedBy w.proxy.self lockerLog = [(201, 9975 * 10 ^ 20)] ∧
      Locker.Steps World.initial.chain lockerLog w.chain := by
  let now := 20 * Locker.rewardsDuration
  let log : Log := [⟨now, 1, .locker (.lock 1 (10 ^ 20))⟩,
    ⟨now, 101, .locker (.addReward 201 400)⟩, ⟨now, 1, .setApprovals⟩, ⟨now, 5, .distribute⟩]
  have hvalues : ((system (Minters 300 201)).play World.at World.initial log).map
      (fun w => (w.distributed, w.chain.balance 201 5)) =
        .ok ([⟨201, 25 * 10 ^ 20, 9975 * 10 ^ 20⟩], 25 * 10 ^ 20) := by decide +kernel
  obtain ⟨w, hw, hvalues⟩ := Tx.map_eq_ok.1 hvalues
  obtain ⟨hd, hpaid⟩ := Prod.mk.inj hvalues
  have hsteps : (system (Minters 300 201)).Steps World.initial log w := .play World.elsewhere_at hw
  obtain ⟨⟨lockerLog, hlocker, hq⟩, -⟩ := proxy_distributes
    (Minters.lawful (by decide) _) World.initial_deployed hsteps (by decide)
  rw [hd] at hq
  exact ⟨w, hsteps, hd, hpaid, lockerLog, hq, hlocker⟩

/-- The AURA of the account 1 after it sent 7 to the proxy. -/
def auraSent : Erc20 Address :=
  match (World.initial.chain.tokens 200).transfer 1 400 7 with
  | .ok t => t
  | .error _ => World.initial.chain.tokens 200

theorem World.withToken_deployed (t : Erc20 Address) :
    Deployed (World.initial.withToken 200 t) where
  chain := ⟨[], _, ⟨show 0 < 20 * Locker.rewardsDuration by decide,
    show (100 : Address) ≠ 0 by decide, rfl⟩, .refl⟩
  proxy := World.initial_deployed.proxy
  rewards := rfl
  self_ne := World.initial_deployed.self_ne
  locker_ne := World.initial_deployed.locker_ne
  crv_ne := World.initial_deployed.crv_ne
  distributed := rfl

/-- The 7 AURA are there after a distribution, and cannot be distributed. -/
theorem aura_stays_run : ∃ w,
    (system (Minters 300 201)).Steps (World.initial.withToken 200 auraSent)
      (let now := 20 * Locker.rewardsDuration
      [⟨now, 1, .locker (.lock 1 (10 ^ 20))⟩, ⟨now, 101, .locker (.addReward 201 400)⟩,
        ⟨now, 1, .setApprovals⟩, ⟨now, 5, .distribute⟩]) w ∧
    w.distributed.length = 1 ∧ 7 ≤ w.held 200 ∧ ∀ w', w.distributeOther 5 200 ≠ .ok w' := by
  let now := 20 * Locker.rewardsDuration
  let log : Log := [⟨now, 1, .locker (.lock 1 (10 ^ 20))⟩,
    ⟨now, 101, .locker (.addReward 201 400)⟩, ⟨now, 1, .setApprovals⟩, ⟨now, 5, .distribute⟩]
  let w₀ := World.initial.withToken 200 auraSent
  have hvalues : ((system (Minters 300 201)).play World.at w₀ log).map (fun w =>
      (w.distributed.length, w.proxy.cvx, w.proxy.self, w.chain.locker.config.self)) =
        .ok (1, 200, 400, 100) := by decide +kernel
  obtain ⟨w, hw, hvalues⟩ := Tx.map_eq_ok.1 hvalues
  simp only [Prod.mk.injEq] at hvalues
  obtain ⟨hlength, hcvx, hself, hlself⟩ := hvalues
  have hsteps : (system (Minters 300 201)).Steps w₀ log w := .play World.elsewhere_at hw
  have hcrv : (300 : Address) ≠ 201 := by decide
  have h₀ := World.withToken_deployed auraSent
  have hheld : w₀.held 200 ≤ w.held 200 :=
    (aura_stays (Minters.lawful hcrv _) h₀ rfl .refl nofun).1 log w hsteps (by decide)
  have hseven : w₀.held 200 = 7 := by decide +kernel
  have hstuck := (aura_stays (Minters.lawful hcrv _) h₀ rfl hsteps (by decide)).2
  have hcaller : IsCaller w 5 := by
    have hne : (5 : Address) ≠ 0 ∧ (5 : Address) ≠ 100 ∧ (5 : Address) ≠ 400 := by decide
    exact ⟨⟨hne.1, hlself ▸ hne.2.1⟩, hself ▸ hne.2.2⟩
  rw [hcvx] at hstuck
  exact ⟨w, hsteps, hlength, hseven.ge.trans hheld, fun w' => hstuck 5 w' hcaller (by omega)⟩

end Aura.StakingProxy
