import Aura.Locker.System

/-!
# Rewards : ExtraRewardsDistributor

`ExtraRewardsDistributor.sol` divides tokens that were added for an epoch among those who
had locked at that epoch. It reads the epochs and balances of `AuraLocker`, so the two
contracts share one world.

A run interleaves calls of both from any account with everything else that happens on the
chain. Tokens are standard ERC20s : they call nobody back, and nobody but the distributor
lowers its balances, because it approves no one. The list `rewardPaid` holds the events of
that name and is read by no function.
-/

open Evm Function

namespace Aura.Rewards

structure ExtraRewardsDistributor where
  /-- `address(this)`. -/
  self : Address
  owner : Address
  canAddReward : Address → Bool
  /-- Token, epoch : amount per token locked. -/
  rewardData : Address → ℕ → ℕ
  /-- The epochs of a token. -/
  rewardEpochs : Address → List ℕ
  /-- Token, account : index after the last claimed epoch. -/
  userClaims : Address → Address → ℕ

/-- The event `RewardPaid`. -/
structure RewardPaid where
  user : Address
  token : Address
  reward : ℕ
  index : ℕ
  deriving DecidableEq

/-- The locker with its tokens and clock, and the distributor. -/
structure World where
  chain : Locker.World
  distributor : ExtraRewardsDistributor
  rewardPaid : List RewardPaid

namespace World

/-! ## The locker -/

/-- `auraLocker.checkpointEpoch()`. -/
def checkpointEpoch (w : World) : Tx World := do
  let chain ← w.chain.checkpointEpoch
  .ok { w with chain }

/-- `auraLocker.epochCount() - 1`. -/
def latestEpoch (w : World) : Tx ℕ :=
  usub w.chain.locker.ledger.epochs.length 1

/-- `auraLocker.balanceAtEpochOf`. -/
def balanceAtEpochOf (w : World) (_epoch : ℕ) (_user : Address) : Tx ℕ :=
  Locker.balanceAtEpochOf w.chain.locker w.chain.now _epoch _user

/-- `auraLocker.totalSupplyAtEpoch`. -/
def totalSupplyAtEpoch (w : World) (_epoch : ℕ) : Tx ℕ :=
  Locker.totalSupplyAtEpoch w.chain.locker w.chain.now _epoch

/-! ## Administration -/

def onlyOwner (w : World) (sender : Address) : Tx Unit :=
  require (w.distributor.owner = sender) "Ownable: caller is not the owner"

def modifyWhitelist (w : World) (sender _depositor : Address) (_canAdd : Bool) : Tx World := do
  w.onlyOwner sender
  let d := w.distributor
  .ok { w with
    distributor := { d with canAddReward := update d.canAddReward _depositor _canAdd } }

def transferOwnership (w : World) (sender newOwner : Address) : Tx World := do
  w.onlyOwner sender
  require (newOwner ≠ 0) "Ownable: new owner is the zero address"
  .ok { w with distributor := { w.distributor with owner := newOwner } }

def renounceOwnership (w : World) (sender : Address) : Tx World := do
  w.onlyOwner sender
  .ok { w with distributor := { w.distributor with owner := 0 } }

/-! ## Adding rewards -/

/-- Whether an epoch comes after those of a list. -/
def isAfter (epochs : List ℕ) (_epoch : ℕ) : Bool :=
  match epochs.getLast? with
  | none => true
  | some e => decide (e < _epoch)

/-- `_addReward`. -/
def _addReward (w : World) (sender _token : Address) (_amount _epoch : ℕ) : Tx World := do
  let d := w.distributor
  require (d.canAddReward sender = true) "!auth"
  require (0 < _amount) "!amount"
  let t ← (w.chain.tokens _token).transferFrom d.self sender d.self _amount
  let supply ← w.totalSupplyAtEpoch _epoch
  let x ← umul 256 _amount (10 ^ 20)
  let rPerT ← udiv x supply
  let data ← uadd 256 (d.rewardData _token _epoch) rPerT
  let epochs := d.rewardEpochs _token
  .ok { w with
    chain := { w.chain with tokens := update w.chain.tokens _token t }
    distributor := { d with
      rewardData := update d.rewardData _token (update (d.rewardData _token) _epoch data)
      rewardEpochs := if isAfter epochs _epoch then
        update d.rewardEpochs _token (epochs ++ [_epoch]) else d.rewardEpochs } }

/-- `addReward`. -/
def addReward (w : World) (sender _token : Address) (_amount : ℕ) : Tx World := do
  let w ← w.checkpointEpoch
  let latestEpoch ← w.latestEpoch
  w._addReward sender _token _amount latestEpoch

/-- `addRewardToEpoch`. -/
def addRewardToEpoch (w : World) (sender _token : Address) (_amount _epoch : ℕ) : Tx World := do
  let w ← w.checkpointEpoch
  let latestEpoch ← w.latestEpoch
  require (_epoch ≤ latestEpoch) "Cannot assign to the future"
  if _epoch = latestEpoch then w._addReward sender _token _amount latestEpoch
  else do
    require (isAfter (w.distributor.rewardEpochs _token) _epoch) "Cannot backdate to this epoch"
    w._addReward sender _token _amount _epoch

/-! ## Claiming -/

/-- `_claimableRewards`. -/
def _claimableRewards (w : World) (_account _token : Address) (_epoch : ℕ) : Tx ℕ := do
  let balance ← w.balanceAtEpochOf _epoch _account
  let x ← umul 256 balance (w.distributor.rewardData _token _epoch)
  .ok (x / 10 ^ 20)

/-- The loop of `_allClaimableRewards`, over the epochs from index `i` on. The result is
`(claimableTokens, epochIndex)`. -/
def claimEpochs (w : World) (_account _token : Address) (latestEpoch : ℕ) :
    List ℕ → ℕ → ℕ × ℕ → Tx (ℕ × ℕ)
  | [], _, r => .ok r
  | e :: es, i, r =>
    -- only claimable after rewards are "locked in"
    if e < latestEpoch then do
      let claimable ← w._claimableRewards _account _token e
      let claimableTokens ← uadd 256 r.1 claimable
      w.claimEpochs _account _token latestEpoch es (i + 1) (claimableTokens, i + 1)
    else w.claimEpochs _account _token latestEpoch es (i + 1) r

/-- `_allClaimableRewards`. -/
def _allClaimableRewards (w : World) (_account _token : Address) (_startIndex : ℕ) :
    Tx (ℕ × ℕ) := do
  let latestEpoch ← w.latestEpoch
  let epochs := w.distributor.rewardEpochs _token
  let epochIndex := w.distributor.userClaims _token _account
  let epochIndex := if epochIndex < _startIndex then _startIndex else epochIndex
  if epochs.length ≤ epochIndex then .ok (0, epochs.length)
  else w.claimEpochs _account _token latestEpoch (epochs.drop epochIndex) epochIndex (0, epochIndex)

/-- `userClaims[_token][_account] = index`. -/
def setUserClaims (w : World) (_token _account : Address) (index : ℕ) : World :=
  let d := w.distributor
  { w with distributor := { d with
      userClaims := update d.userClaims _token (update (d.userClaims _token) _account index) } }

/-- `_getReward`. -/
def _getReward (w : World) (_account _token : Address) (_startIndex : ℕ) : Tx World := do
  let r ← w._allClaimableRewards _account _token _startIndex
  if 0 < r.1 then do
    let t ← (w.chain.tokens _token).transfer w.distributor.self _account r.1
    let w := w.setUserClaims _token _account r.2
    .ok { w with
      chain := { w.chain with tokens := update w.chain.tokens _token t }
      rewardPaid := ⟨_account, _token, r.1, r.2⟩ :: w.rewardPaid }
  else .ok w

/-- The condition of the first `require` of `forfeitRewards`. -/
def isPast (epochs : List ℕ) (_index : ℕ) : Tx Bool :=
  if 0 < _index then do
    let lastIndex ← usub epochs.length 1
    .ok (decide (_index < lastIndex))
  else .ok false

/-- `forfeitRewards`. -/
def forfeitRewards (w : World) (sender _token : Address) (_index : ℕ) : Tx World := do
  let past ← isPast (w.distributor.rewardEpochs _token) _index
  require (past = true) "!past"
  require (w.distributor.userClaims _token sender ≤ _index) "already claimed"
  let i ← uadd 256 _index 1
  .ok (w.setUserClaims _token sender i)

end World

/-! ## Runs -/

/-- The calls of the locker and of the distributor. -/
inductive Call where
  | locker (c : Locker.Call)
  | modifyWhitelist (_depositor : Address) (_canAdd : Bool)
  | transferOwnership (newOwner : Address)
  | renounceOwnership
  | addReward (_token : Address) (_amount : ℕ)
  | addRewardToEpoch (_token : Address) (_amount _epoch : ℕ)
  | getReward (_account _token : Address)
  /-- The `getReward` that starts from an index. -/
  | getRewardFrom (_token : Address) (_startIndex : ℕ)
  | forfeitRewards (_token : Address) (_index : ℕ)
  deriving DecidableEq

/-- Run a call of `sender`. -/
def exec (w : World) (sender : Address) : Call → Tx World
  | .locker c => do
    let chain ← Locker.exec w.chain sender c
    .ok { w with chain }
  | .modifyWhitelist a b => w.modifyWhitelist sender a b
  | .transferOwnership a => w.transferOwnership sender a
  | .renounceOwnership => w.renounceOwnership sender
  | .addReward t n => w.addReward sender t n
  | .addRewardToEpoch t n e => w.addRewardToEpoch sender t n e
  | .getReward a t => w._getReward a t 0
  | .getRewardFrom t i => w._getReward sender t i
  | .forfeitRewards t i => w.forfeitRewards sender t i

/-- What can call the contracts : not the zero account nor one of the two, which call
nothing here but what their code says. -/
def IsCaller (w : World) (a : Address) : Prop :=
  Locker.IsCaller w.chain a ∧ a ≠ w.distributor.self

instance (w : World) (a : Address) : Decidable (IsCaller w a) :=
  inferInstanceAs (Decidable (_ ∧ _))

/-- Time passes and tokens move outside the two contracts. -/
structure Elsewhere (w w' : World) : Prop where
  chain : Locker.Elsewhere w.chain w'.chain
  distributor : w'.distributor = w.distributor
  rewardPaid : w'.rewardPaid = w.rewardPaid
  balances : ∀ token, (w.chain.tokens token).balanceOf w.distributor.self ≤
    (w'.chain.tokens token).balanceOf w.distributor.self

/-- A successful call. -/
structure Event where
  time : ℕ
  sender : Address
  call : Call
  deriving DecidableEq

/-- A run, with the log of its successful calls. -/
inductive Steps (w : World) : List Event → World → Prop
  | refl : Steps w [] w
  | elsewhere {log : List Event} {w₁ w₂ : World} :
      Steps w log w₁ → Elsewhere w₁ w₂ → Steps w log w₂
  | call {log : List Event} {w₁ w₂ : World} {sender : Address} {c : Call} :
      Steps w log w₁ → IsCaller w₁ sender → exec w₁ sender c = .ok w₂ →
        Steps w (log ++ [⟨w₁.chain.now, sender, c⟩]) w₂

/-- The distributor was just deployed, for a locker that any run may have led to. -/
structure Deployed (w : World) : Prop where
  chain : ∃ log, Locker.Reachable log w.chain
  self_ne : w.distributor.self ≠ 0
  locker_ne : w.distributor.self ≠ w.chain.locker.config.self
  distributor : w.distributor = ⟨w.distributor.self, w.distributor.owner, fun _ => false,
    fun _ _ => 0, fun _ => [], fun _ _ => 0⟩
  rewardPaid : w.rewardPaid = []

/-- `w` is reached from a deployment by the calls of `log`. -/
def Reachable (log : List Event) (w : World) : Prop :=
  ∃ w₀, Deployed w₀ ∧ Steps w₀ log w

theorem Steps.trans {w w₁ w₂ : World} {log₁ log₂ : List Event} (h₁ : Steps w log₁ w₁)
    (h₂ : Steps w₁ log₂ w₂) : Steps w (log₁ ++ log₂) w₂ := by
  induction h₂ with
  | refl => simpa using h₁
  | elsewhere _ he ih => exact .elsewhere ih he
  | call _ hs hx ih =>
    rw [← List.append_assoc]
    exact .call ih hs hx

/-! ## Computed runs -/

/-- The initial world of the locker, with a distributor at the address 300 that the
account 101 owns. -/
def World.initial (now : ℕ) : World where
  chain := .initial now
  distributor := ⟨300, 101, fun _ => false, fun _ _ => 0, fun _ => [], fun _ _ => 0⟩
  rewardPaid := []

theorem World.initial_deployed {now : ℕ} (h : 0 < now) : Deployed (World.initial now) where
  chain := ⟨[], _, Locker.World.initial_deployed h, .refl⟩
  self_ne := show (300 : Address) ≠ 0 by decide
  locker_ne := show (300 : Address) ≠ 100 by decide
  distributor := rfl
  rewardPaid := rfl

/-- The world at a later time. -/
def World.at (w : World) (now : ℕ) : World :=
  { w with chain := { w.chain with now } }

/-- The calls of a log, one after the other, each at its time. -/
def play : World → List Event → Tx World
  | w, [] => .ok w
  | w, e :: log =>
    if w.chain.now ≤ e.time ∧ IsCaller w e.sender then
      exec (w.at e.time) e.sender e.call >>= (play · log)
    else .error .outOfGas

/-- The world after the calls of a log. -/
def World.after (w : World) (log : List Event) : World :=
  match play w log with
  | .ok w' => w'
  | .error _ => w

/-- A run that was computed. -/
theorem Steps.play {w w' : World} {log : List Event} (h : Rewards.play w log = .ok w') :
    Steps w log w' := by
  induction log generalizing w with
  | nil =>
    cases h
    exact .refl
  | cons e log ih =>
    unfold Rewards.play at h
    split_ifs at h with hc
    obtain ⟨w₁, hx, h⟩ := bind_eq_ok.1 h
    have hw : Steps w [] (w.at e.time) :=
      .elsewhere .refl ⟨⟨rfl, hc.1, fun _ => le_rfl⟩, rfl, rfl, fun _ => le_rfl⟩
    exact (Steps.call hw hc.2 hx).trans (ih h)

theorem Steps.after {w : World} {log : List Event} (h : (Rewards.play w log).returns = true) :
    Steps w log (w.after log) := by
  obtain ⟨w', hw⟩ := Tx.exists_ok h
  rw [World.after, hw]
  exact .play hw

end Aura.Rewards
