import Aura.Locker.Actions

/-!
# AuraLocker : runs

A world evolves by calls of the locker from any account and by everything else that
happens on the chain (`Elsewhere`) : time passes and tokens move, but the storage of the
locker does not change and nobody else lowers a token balance of the locker, which holds
for a standard ERC20 because the locker approves no one but the reward staking contract,
whose pulls are part of the locker's own calls.

`Steps w log w'` is a run with the log of its successful calls in order; a call that
reverts is no step. `Reachable log w` says that `w` is reached from a deployment.
-/

open Evm

namespace Aura.Locker

/-- The external functions that change the state. -/
inductive Call where
  | lock (_account : Address) (_amount : ℕ)
  | getReward (_account : Address) (_stake : Bool)
  | getRewardSkip (_account : Address) (_skipIdx : List Bool)
  | checkpointEpoch
  | processExpiredLocks (_relock : Bool)
  | kickExpiredLocks (_account : Address)
  | emergencyWithdraw
  | delegate (newDelegatee : Address)
  | queueNewRewards (_rewardsToken : Address) (_rewards : ℕ)
  | addReward (_rewardsToken _distributor : Address)
  | approveRewardDistributor (_rewardsToken _distributor : Address) (_approved : Bool)
  | setKickIncentive (_rate _delay : ℕ)
  | shutdown
  | modifyBlacklist (_account : Address) (_blacklisted : Bool)
  | transferOwnership (newOwner : Address)
  | recoverERC20 (_tokenAddress : Address) (_tokenAmount : ℕ)
  | setApprovals
  deriving DecidableEq

namespace World

/-- The world with another storage of the locker. -/
def withLocker (w : World) (s : Tx Storage) : Tx World := do
  let s ← s
  .ok { w with locker := s }

/-- The world after checkpointing the epoch. -/
def checkpointEpoch (w : World) : Tx World := do
  let l ← _checkpointEpoch w.locker.ledger w.now
  .ok { w with locker := { w.locker with ledger := l } }

end World

/-- Run a call of `sender`. -/
def exec (w : World) (sender : Address) : Call → Tx World
  | .lock a n => lock w sender a n
  | .getReward a b => getReward w sender a b
  | .getRewardSkip a l => getRewardSkip w sender a l
  | .checkpointEpoch => w.checkpointEpoch
  | .processExpiredLocks r => processExpiredLocks w sender r
  | .kickExpiredLocks a => kickExpiredLocks w sender a
  | .emergencyWithdraw => emergencyWithdraw w sender
  | .delegate d => w.withLocker (delegate w.locker w.now sender d)
  | .queueNewRewards t n => queueNewRewards w sender t n
  | .addReward t d => w.withLocker (addReward w.locker w.now sender t d)
  | .approveRewardDistributor t d b => w.withLocker (approveRewardDistributor w.locker sender t d b)
  | .setKickIncentive r d => w.withLocker (setKickIncentive w.locker sender r d)
  | .shutdown => w.withLocker (shutdown w.locker sender)
  | .modifyBlacklist a b => modifyBlacklist w sender a b
  | .transferOwnership a => w.withLocker (transferOwnership w.locker sender a)
  | .recoverERC20 t n => recoverERC20 w sender t n
  | .setApprovals => setApprovals w

/-- What can call the locker : no call comes from the zero account or the locker itself. -/
def IsCaller (w : World) (a : Address) : Prop :=
  a ≠ 0 ∧ a ≠ w.locker.config.self

instance (w : World) (a : Address) : Decidable (IsCaller w a) :=
  inferInstanceAs (Decidable (_ ∧ _))

/-- Time passes and tokens move outside the locker. -/
structure Elsewhere (w w' : World) : Prop where
  locker : w'.locker = w.locker
  now : w.now ≤ w'.now
  balances : ∀ token, (w.tokens token).balanceOf w.locker.config.self ≤
    (w'.tokens token).balanceOf w.locker.config.self

/-- A successful call. -/
structure Event where
  time : ℕ
  sender : Address
  call : Call
  deriving DecidableEq

/-- A run, with the log of its successful calls. -/
inductive Steps (w : World) : List Event → World → Prop
  | refl : Steps w [] w
  | elsewhere {log : List Event} {w₁ w₂ : World} :
      Steps w log w₁ → Elsewhere w₁ w₂ → Steps w log w₂
  | call {log : List Event} {w₁ w₂ : World} {sender : Address} {c : Call} :
      Steps w log w₁ → IsCaller w₁ sender → exec w₁ sender c = .ok w₂ →
        Steps w (log ++ [⟨w₁.now, sender, c⟩]) w₂

/-- The locker was just deployed. A transaction is never in the genesis block, so its
timestamp is positive, and no contract has the address zero. -/
structure Deployed (w : World) : Prop where
  now_pos : 0 < w.now
  self_ne : w.locker.config.self ≠ 0
  locker : w.locker = deploy w.now w.locker.config.self w.locker.config.owner
    w.locker.config.stakingToken w.locker.config.cvxCrv w.locker.config.cvxcrvStaking

/-- `w` is reached from a deployment by the calls of `log`. -/
def Reachable (log : List Event) (w : World) : Prop :=
  ∃ w₀, Deployed w₀ ∧ Steps w₀ log w

theorem Steps.trans {w w₁ w₂ : World} {log₁ log₂ : List Event} (h₁ : Steps w log₁ w₁)
    (h₂ : Steps w₁ log₂ w₂) : Steps w (log₁ ++ log₂) w₂ := by
  induction h₂ with
  | refl => simpa using h₁
  | elsewhere _ he ih => exact .elsewhere ih he
  | call _ hs hx ih =>
    rw [← List.append_assoc]
    exact .call ih hs hx

/-- An invariant that a deployment has and every step keeps holds of every reachable world. -/
theorem Reachable.induct {P : List Event → World → Prop}
    (deployed : ∀ w, Deployed w → P [] w)
    (elsewhere : ∀ log w w', Reachable log w → P log w → Elsewhere w w' → P log w')
    (call : ∀ log w w' sender c, Reachable log w → P log w → IsCaller w sender →
      exec w sender c = .ok w' → P (log ++ [⟨w.now, sender, c⟩]) w')
    {log : List Event} {w : World} (h : Reachable log w) : P log w := by
  obtain ⟨w₀, h₀, hs⟩ := h
  induction hs with
  | refl => exact deployed w₀ h₀
  | elsewhere hs he ih => exact elsewhere _ _ _ ⟨w₀, h₀, hs⟩ ih he
  | call hs hc hx ih => exact call _ _ _ _ _ ⟨w₀, h₀, hs⟩ ih hc hx

/-! ## Computed runs -/

/-- The world at `now` after a deployment by the account 101, of a locker at the address 100
for the staking token 200. The account 1 holds 10^30 of every token, and everybody has
approved everybody. -/
def World.initial (now : ℕ) : World where
  now := now
  tokens _ := Erc20.single 1 (10 ^ 30) Erc20.single_supply_lt fun _ _ => 2 ^ 256 - 1
  extcodesize _ := 0
  locker := deploy now 100 101 200 201 202

theorem World.initial_deployed {now : ℕ} (h : 0 < now) : Deployed (World.initial now) :=
  ⟨h, show (100 : Address) ≠ 0 by decide, rfl⟩

/-- The calls of a log, one after the other, each at its time. -/
def play : World → List Event → Tx World
  | w, [] => .ok w
  | w, e :: log =>
    if w.now ≤ e.time ∧ IsCaller w e.sender then
      exec { w with now := e.time } e.sender e.call >>= (play · log)
    else .error .outOfGas

/-- The world after the calls of a log. -/
def World.after (w : World) (log : List Event) : World :=
  match play w log with
  | .ok w' => w'
  | .error _ => w

/-- A run that was computed. -/
theorem Steps.play {w w' : World} {log : List Event} (h : Locker.play w log = .ok w') :
    Steps w log w' := by
  induction log generalizing w with
  | nil =>
    cases h
    exact .refl
  | cons e log ih =>
    unfold Locker.play at h
    split_ifs at h with hc
    obtain ⟨w₁, hx, h⟩ := bind_eq_ok.1 h
    have hw : Steps w [] { w with now := e.time } :=
      .elsewhere .refl ⟨rfl, hc.1, fun _ => le_rfl⟩
    exact (Steps.call hw hc.2 hx).trans (ih h)

theorem Steps.after {w : World} {log : List Event} (h : (Locker.play w log).returns = true) :
    Steps w log (w.after log) := by
  obtain ⟨w', hw⟩ := Tx.exists_ok h
  rw [World.after, hw]
  exact .play hw

end Aura.Locker
