import Aura.LockerPull
import Aura.MerkleTree
import Aura.Evm.Run

/-!
# Airdrop : AuraMerkleDrop

`AuraMerkleDrop.sol` pays AURA to the accounts of a Merkle tree, to each once, as tokens less
a penalty or as a lock. The DAO can withdraw everything before the start and what is left
after the expiry.

A `bytes32` is a natural number, so that hashing can be free of collisions. The list
`payments` records what the contract pays and is read by no function.
-/

open Evm Function

namespace Aura.Airdrop

/-- The leaf `keccak256(abi.encodePacked(account, amount))`, and the hash of a sorted pair of
`MerkleProof`. -/
abbrev Keccak := Hashing (Address × ℕ) ℕ

structure AuraMerkleDrop where
  /-- `address(this)`. -/
  self : Address
  dao : Address
  merkleRoot : ℕ
  auraLocker : Address
  penaltyForwarder : Address
  pendingPenalty : ℕ
  deployTime : ℕ
  startTime : ℕ
  expiryTime : ℕ
  hasClaimed : Address → Bool

/-- A payment of the contract. -/
inductive Payment where
  /-- The event `Claimed`, with the penalty that is kept. -/
  | claimed (addr : Address) (amt penalty : ℕ) (locked : Bool)
  /-- The event `PenaltyForwarded`. -/
  | forwarded (amount : ℕ)
  /-- The events `ExpiredWithdrawn` and `Rescued`. -/
  | toDao (amount : ℕ)
  deriving DecidableEq

structure World where
  /-- `block.timestamp`. -/
  now : ℕ
  aura : Erc20 Address
  /-- The locks that the lockers accept. -/
  accepts : Address → Address → ℕ → Bool
  drop : AuraMerkleDrop
  payments : List Payment

/-- The constructor, for the token at the address `_aura`. -/
def deploy (now : ℕ) (self _dao : Address) (_merkleRoot : ℕ) (_aura _auraLocker
    _penaltyForwarder : Address) (_startDelay _expiresAfter : ℕ) : Tx AuraMerkleDrop := do
  require (_dao ≠ 0) "!dao"
  require (_aura ≠ 0) "!aura"
  let startTime ← uadd 256 now _startDelay
  require (2 * 7 * 86400 < _expiresAfter) "!expiry"
  let expiryTime ← uadd 256 startTime _expiresAfter
  .ok ⟨self, _dao, _merkleRoot, _auraLocker, _penaltyForwarder, 0, now, startTime, expiryTime,
    fun _ => false⟩

namespace World

variable (w : World)

/-! ## Config -/

def onlyDao (sender : Address) : Tx Unit :=
  require (sender = w.drop.dao) "!auth"

def setDao (sender _newDao : Address) : Tx World := do
  w.onlyDao sender
  .ok { w with drop := { w.drop with dao := _newDao } }

def setRoot (sender : Address) (_merkleRoot : ℕ) : Tx World := do
  w.onlyDao sender
  require (w.drop.merkleRoot = 0) "already set"
  .ok { w with drop := { w.drop with merkleRoot := _merkleRoot } }

def startEarly (sender : Address) : Tx World := do
  w.onlyDao sender
  .ok { w with drop := { w.drop with startTime := w.now } }

/-- `aura.safeTransfer(dao, amt)`. -/
def sendToDao (amt : ℕ) : Tx World := do
  let t ← w.aura.transfer w.drop.self w.drop.dao amt
  .ok { w with aura := t, payments := .toDao amt :: w.payments }

def withdrawExpired (sender : Address) : Tx World := do
  w.onlyDao sender
  require (w.drop.expiryTime < w.now) "!expired"
  let amt ← usub (w.aura.balanceOf w.drop.self) w.drop.pendingPenalty
  w.sendToDao amt

def setLocker (sender _newLocker : Address) : Tx World := do
  w.onlyDao sender
  .ok { w with drop := { w.drop with auraLocker := _newLocker } }

def rescueReward (sender : Address) : Tx World := do
  w.onlyDao sender
  let rescueTime ← uadd 256 w.drop.deployTime (7 * 86400)
  require (w.now < AuraMath.min rescueTime w.drop.startTime) "too late"
  w.sendToDao (w.aura.balanceOf w.drop.self)

/-! ## Claim -/

/-- The penalty of a claim that is not locked. -/
def penalty (_amount : ℕ) : Tx ℕ :=
  if w.drop.penaltyForwarder = 0 ∨ w.drop.auraLocker = 0 then .ok 0
  else do
    let x ← umul 256 _amount 3
    .ok (x / 10)

/-- The payment in `claim` : the tokens, the pending penalty and the penalty of this claim
after a lock or a transfer. -/
def payOut (account : Address) (_amount : ℕ) (_lock : Bool) : Tx (Erc20 Address × ℕ × ℕ) :=
  let d := w.drop
  if _lock then do
    let t ← w.aura.safeApprove d.self d.auraLocker 0
    let t ← t.safeApprove d.self d.auraLocker _amount
    let t ← lockerPull w.accepts t d.self d.auraLocker account _amount
    .ok (t, d.pendingPenalty, 0)
  else do
    let penalty ← w.penalty _amount
    let pendingPenalty ← uadd 256 d.pendingPenalty penalty
    let x ← usub _amount penalty
    let t ← w.aura.transfer d.self account x
    .ok (t, pendingPenalty, penalty)

def claim (keccak256 : Keccak) (sender : Address) (_proof : List ℕ) (_amount : ℕ)
    (_lock : Bool) : Tx World := do
  let d := w.drop
  require (d.merkleRoot ≠ 0) "!root"
  require (d.startTime < w.now) "!started"
  require (w.now < d.expiryTime) "!active"
  require (0 < _amount) "!amount"
  require (d.hasClaimed sender = false) "already claimed"
  require (keccak256.verify _proof d.merkleRoot (keccak256.leaf (sender, _amount)) = true)
    "invalid proof"
  let r ← w.payOut sender _amount _lock
  .ok { w with
    aura := r.1
    drop := { d with
      hasClaimed := update d.hasClaimed sender true
      pendingPenalty := r.2.1 }
    payments := .claimed sender _amount r.2.2 _lock :: w.payments }

/-! ## Forward -/

def forwardPenalty : Tx World := do
  let toForward := w.drop.pendingPenalty
  let t ← w.aura.transfer w.drop.self w.drop.penaltyForwarder toForward
  .ok { w with
    aura := t
    drop := { w.drop with pendingPenalty := 0 }
    payments := .forwarded toForward :: w.payments }

end World

/-! ## Runs -/

/-- The functions that change the state. -/
inductive Call where
  | setDao (_newDao : Address)
  | setRoot (_merkleRoot : ℕ)
  | startEarly
  | withdrawExpired
  | setLocker (_newLocker : Address)
  | rescueReward
  | claim (_proof : List ℕ) (_amount : ℕ) (_lock : Bool)
  | forwardPenalty
  deriving DecidableEq

/-- Run a call of `sender`. -/
def exec (keccak256 : Keccak) (w : World) (sender : Address) : Call → Tx World
  | .setDao a => w.setDao sender a
  | .setRoot x => w.setRoot sender x
  | .startEarly => w.startEarly sender
  | .withdrawExpired => w.withdrawExpired sender
  | .setLocker a => w.setLocker sender a
  | .rescueReward => w.rescueReward sender
  | .claim proof n b => w.claim keccak256 sender proof n b
  | .forwardPenalty => w.forwardPenalty

/-- No call comes from the zero account or the contract itself. -/
def IsCaller (w : World) (a : Address) : Prop :=
  a ≠ 0 ∧ a ≠ w.drop.self

instance (w : World) (a : Address) : Decidable (IsCaller w a) :=
  inferInstanceAs (Decidable (_ ∧ _))

/-- Time passes, tokens move and lockers change. -/
structure Elsewhere (w w' : World) : Prop where
  now : w.now ≤ w'.now
  aura : Erc20.Others w.drop.self w.aura w'.aura
  drop : w'.drop = w.drop
  payments : w'.payments = w.payments

/-- The contract was just deployed and has approved nobody. -/
structure Deployed (w : World) : Prop where
  self_ne : w.drop.self ≠ 0
  deploy : ∃ _dao _merkleRoot _aura _auraLocker _penaltyForwarder _startDelay _expiresAfter,
    deploy w.now w.drop.self _dao _merkleRoot _aura _auraLocker _penaltyForwarder _startDelay
      _expiresAfter = .ok w.drop
  unapproved : w.aura.Unapproved w.drop.self
  payments : w.payments = []

/-- The contract and its surroundings. -/
def system (keccak256 : Keccak) : System World Address Call where
  now := World.now
  IsCaller := IsCaller
  exec := exec keccak256
  Elsewhere := Elsewhere
  Deployed := Deployed

instance (keccak256 : Keccak) (w : World) (a : Address) :
    Decidable ((system keccak256).IsCaller w a) :=
  inferInstanceAs (Decidable (IsCaller w a))

end Aura.Airdrop
