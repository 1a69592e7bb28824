import Aura.Airdrop.Funding

/-!
# Airdrop : AuraMerkleDropV2

`AuraMerkleDropV2.sol` : the drop without a penalty, in which anybody may claim for an account
of the tree. Its runs are the runs of an `AuraMerkleDrop` without a penalty forwarder, in which
a claim for an account is one of the account itself (`v2_runs`). A claim can be forced on an
account, but never as a lock, and never of less than the whole amount of its leaf : once the
drop is funded, every account of the tree has got all of it, or anybody can claim it for the
account as long as claims are open (`everybody_paid`).
-/

open Evm Function

namespace Aura.Airdrop.V2

structure AuraMerkleDropV2 where
  /-- `address(this)`. -/
  self : Address
  dao : Address
  merkleRoot : ℕ
  auraLocker : Address
  deployTime : ℕ
  startTime : ℕ
  expiryTime : ℕ
  hasClaimed : Address → Bool

structure World where
  /-- `block.timestamp`. -/
  now : ℕ
  aura : Erc20 Address
  /-- The locks that the lockers accept. -/
  accepts : Address → Address → ℕ → Bool
  drop : AuraMerkleDropV2
  /-- The events `Claimed`, which have no penalty, `ExpiredWithdrawn` and `Rescued`. -/
  payments : List Payment

/-- The constructor, for the token at the address `_aura`. -/
def deploy (now : ℕ) (self _dao : Address) (_merkleRoot : ℕ) (_aura _auraLocker : Address)
    (_startDelay _expiresAfter : ℕ) : Tx AuraMerkleDropV2 := do
  require (_dao ≠ 0) "!dao"
  require (_aura ≠ 0) "!aura"
  let startTime ← uadd 256 now _startDelay
  require (2 * 7 * 86400 < _expiresAfter) "!expiry"
  let expiryTime ← uadd 256 startTime _expiresAfter
  .ok ⟨self, _dao, _merkleRoot, _auraLocker, now, startTime, expiryTime, fun _ => false⟩

namespace World

variable (w : World)

/-! ## Config -/

def onlyDao (sender : Address) : Tx Unit :=
  require (sender = w.drop.dao) "!auth"

def setDao (sender _newDao : Address) : Tx World := do
  w.onlyDao sender
  .ok { w with drop := { w.drop with dao := _newDao } }

def setRoot (sender : Address) (_merkleRoot : ℕ) : Tx World := do
  w.onlyDao sender
  require (w.drop.merkleRoot = 0) "already set"
  .ok { w with drop := { w.drop with merkleRoot := _merkleRoot } }

def startEarly (sender : Address) : Tx World := do
  w.onlyDao sender
  .ok { w with drop := { w.drop with startTime := w.now } }

/-- `aura.safeTransfer(dao, amt)`. -/
def sendToDao (amt : ℕ) : Tx World := do
  let t ← w.aura.transfer w.drop.self w.drop.dao amt
  .ok { w with aura := t, payments := .toDao amt :: w.payments }

def withdrawExpired (sender : Address) : Tx World := do
  w.onlyDao sender
  require (w.drop.expiryTime < w.now) "!expired"
  w.sendToDao (w.aura.balanceOf w.drop.self)

def setLocker (sender _newLocker : Address) : Tx World := do
  w.onlyDao sender
  .ok { w with drop := { w.drop with auraLocker := _newLocker } }

def rescueReward (sender : Address) : Tx World := do
  w.onlyDao sender
  let rescueTime ← uadd 256 w.drop.deployTime (7 * 86400)
  require (w.now < AuraMath.min rescueTime w.drop.startTime) "too late"
  w.sendToDao (w.aura.balanceOf w.drop.self)

/-! ## Claim -/

/-- The payment in `claim`. -/
def payOut (addr : Address) (_amount : ℕ) (_lock : Bool) : Tx (Erc20 Address) :=
  let d := w.drop
  if _lock then do
    let t ← w.aura.safeApprove d.self d.auraLocker 0
    let t ← t.safeApprove d.self d.auraLocker _amount
    lockerPull w.accepts t d.self d.auraLocker addr _amount
  else w.aura.transfer d.self addr _amount

/-- The check of the sender in `claim`. -/
def checkSender (sender : Address) (_lock : Bool) (addr : Address) : Tx Unit :=
  if addr ≠ sender then require (_lock = false) "sender!=addr" else .ok ()

def claim (keccak256 : Keccak) (sender : Address) (_proof : List ℕ) (_amount : ℕ)
    (_lock : Bool) (addr : Address) : Tx World := do
  let d := w.drop
  checkSender sender _lock addr
  require (d.merkleRoot ≠ 0) "!root"
  require (d.startTime < w.now) "!started"
  require (w.now < d.expiryTime) "!active"
  require (0 < _amount) "!amount"
  require (d.hasClaimed addr = false) "already claimed"
  require (keccak256.verify _proof d.merkleRoot (keccak256.leaf (addr, _amount)) = true)
    "invalid proof"
  let aura ← w.payOut addr _amount _lock
  .ok { w with
    aura
    drop := { d with hasClaimed := update d.hasClaimed addr true }
    payments := .claimed addr _amount 0 _lock :: w.payments }

end World

/-! ## Runs -/

/-- The functions that change the state. -/
inductive Call where
  | setDao (_newDao : Address)
  | setRoot (_merkleRoot : ℕ)
  | startEarly
  | withdrawExpired
  | setLocker (_newLocker : Address)
  | rescueReward
  | claim (_proof : List ℕ) (_amount : ℕ) (_lock : Bool) (addr : Address)
  deriving DecidableEq

/-- Run a call of `sender`. -/
def exec (keccak256 : Keccak) (w : World) (sender : Address) : Call → Tx World
  | .setDao a => w.setDao sender a
  | .setRoot x => w.setRoot sender x
  | .startEarly => w.startEarly sender
  | .withdrawExpired => w.withdrawExpired sender
  | .setLocker a => w.setLocker sender a
  | .rescueReward => w.rescueReward sender
  | .claim proof n b a => w.claim keccak256 sender proof n b a

/-- Time passes, tokens move and lockers change. -/
structure Elsewhere (w w' : World) : Prop where
  now : w.now ≤ w'.now
  aura : Erc20.Others w.drop.self w.aura w'.aura
  drop : w'.drop = w.drop
  payments : w'.payments = w.payments

/-- The contract was just deployed and has approved nobody. -/
structure Deployed (w : World) : Prop where
  self_ne : w.drop.self ≠ 0
  deploy : ∃ _dao _merkleRoot _aura _auraLocker _startDelay _expiresAfter,
    deploy w.now w.drop.self _dao _merkleRoot _aura _auraLocker _startDelay _expiresAfter =
      .ok w.drop
  unapproved : w.aura.Unapproved w.drop.self
  payments : w.payments = []

/-- The contract and its surroundings. No call comes from the zero account or the contract
itself. -/
def system (keccak256 : Keccak) : System World Address Call where
  now := World.now
  IsCaller w a := a ≠ 0 ∧ a ≠ w.drop.self
  exec := exec keccak256
  Elsewhere := Elsewhere
  Deployed := Deployed

instance (keccak256 : Keccak) (w : World) (a : Address) :
    Decidable ((system keccak256).IsCaller w a) :=
  inferInstanceAs (Decidable (a ≠ 0 ∧ a ≠ w.drop.self))

abbrev Log := List (Event Address Call)

/-! ## The drop with a penalty -/

/-- The drop as an `AuraMerkleDrop` without a penalty forwarder. -/
def World.toV1 (w : World) : Airdrop.World where
  now := w.now
  aura := w.aura
  accepts := w.accepts
  drop := ⟨w.drop.self, w.drop.dao, w.drop.merkleRoot, w.drop.auraLocker, 0, 0, w.drop.deployTime,
    w.drop.startTime, w.drop.expiryTime, w.drop.hasClaimed⟩
  payments := w.payments

/-- The call of the other contract. -/
def Call.toV1 : Call → Airdrop.Call
  | .setDao a => .setDao a
  | .setRoot x => .setRoot x
  | .startEarly => .startEarly
  | .withdrawExpired => .withdrawExpired
  | .setLocker a => .setLocker a
  | .rescueReward => .rescueReward
  | .claim proof n b _ => .claim proof n b

/-- Who a call of `sender` is for. -/
def Call.account (sender : Address) : Call → Address
  | .claim _ _ _ addr => addr
  | _ => sender

/-- The call of the other contract, of the account it is for. -/
def onBehalf (e : Event Address Call) : Event Address Airdrop.Call :=
  ⟨e.time, e.call.account e.sender, e.call.toV1⟩

variable {keccak256 : Keccak} {w w₀ w' : World} {sender a : Address} {c : Call} {log log₀ : Log}
  {tree : MerkleTree (Address × ℕ)}

/-- Without a penalty forwarder there is no penalty. -/
theorem payOut_toV1 (w : World) (a : Address) (n : ℕ) (b : Bool) :
    w.toV1.payOut a n b = (w.payOut a n b).map fun t => (t, 0, 0) := by
  unfold Airdrop.World.payOut World.payOut
  cases b with
  | true =>
    dsimp only
    rw [if_pos rfl, if_pos rfl, Tx.map_bind]
    congr 1
    funext t
    rw [Tx.map_bind]
    congr 1
  | false =>
    have hnone : w.toV1.penalty n = .ok 0 := if_pos (.inl rfl)
    have hzero : uadd 256 w.toV1.drop.pendingPenalty 0 = .ok 0 := rfl
    have hall : usub n 0 = .ok n := usub_of (Nat.zero_le n)
    dsimp only
    rw [if_neg Bool.false_ne_true, if_neg Bool.false_ne_true, hnone, ok_bind, hzero, ok_bind, hall,
      ok_bind]
    show w.aura.transfer w.drop.self a n >>= _ = _
    cases w.aura.transfer w.drop.self a n <;> rfl

/-- A lock is for the sender alone. -/
def Call.Allowed (sender : Address) : Call → Prop
  | .claim _ _ b addr => addr = sender ∨ b = false
  | _ => True

theorem checkSender_eq_ok {b : Bool} {u : Unit} :
    World.checkSender sender b a = .ok u ↔ a = sender ∨ b = false := by
  unfold World.checkSender
  split_ifs with hne
  · rw [require_eq_ok]
    exact ⟨.inr, fun h => h.resolve_left hne⟩
  · exact ⟨fun _ => .inl (not_not.1 hne), fun _ => rfl⟩

theorem allowed_of_exec (h : exec keccak256 w sender c = .ok w') : c.Allowed sender := by
  cases c with
  | claim proof n b addr =>
    obtain ⟨_, hok, -⟩ := bind_eq_ok.1 h
    exact checkSender_eq_ok.1 hok
  | _ => trivial

/-- A claim is the one of the account in the other contract. -/
theorem claim_toV1 {proof : List ℕ} {n : ℕ} {b : Bool} (h : a = sender ∨ b = false) :
    (w.claim keccak256 sender proof n b a).map World.toV1 =
      w.toV1.claim keccak256 a proof n b := by
  have hallowed : World.checkSender sender b a = .ok () := checkSender_eq_ok.2 h
  unfold World.claim Airdrop.World.claim
  dsimp only
  rw [hallowed, ok_bind, payOut_toV1]
  simp only [Tx.map_bind]
  -- the same checks in the same order
  refine bind_congr fun _ => bind_congr fun _ => bind_congr fun _ => bind_congr fun _ =>
    bind_congr fun _ => bind_congr fun _ => ?_
  cases w.payOut a n b <;> rfl

theorem sendToDao_toV1 (w : World) (n : ℕ) : (w.sendToDao n).map World.toV1 = w.toV1.sendToDao n :=
  Tx.map_bind _ _ _

/-- Every call is one of the other contract, of the account that it is for. -/
theorem exec_toV1 (h : c.Allowed sender) : (exec keccak256 w sender c).map World.toV1 =
    Airdrop.exec keccak256 w.toV1 (c.account sender) c.toV1 := by
  cases c with
  | claim proof n b a => exact claim_toV1 h
  | withdrawExpired =>
    have hall : usub (w.toV1.aura.balanceOf w.toV1.drop.self) w.toV1.drop.pendingPenalty =
        .ok (w.aura.balanceOf w.drop.self) := usub_of (Nat.zero_le _)
    show (w.withdrawExpired sender).map World.toV1 = w.toV1.withdrawExpired sender
    unfold World.withdrawExpired Airdrop.World.withdrawExpired
    simp only [Tx.map_bind, sendToDao_toV1, hall, ok_bind]
    rfl
  | rescueReward =>
    show (w.rescueReward sender).map World.toV1 = w.toV1.rescueReward sender
    unfold World.rescueReward Airdrop.World.rescueReward
    simp only [Tx.map_bind, sendToDao_toV1]
    rfl
  | setRoot x =>
    show (w.setRoot sender x).map World.toV1 = w.toV1.setRoot sender x
    unfold World.setRoot Airdrop.World.setRoot
    simp only [Tx.map_bind]
    rfl
  | setDao a | startEarly | setLocker a => exact Tx.map_bind _ _ _

/-- A call that returns does so in the other contract. -/
theorem exec_toV1_ok (h : exec keccak256 w sender c = .ok w') :
    Airdrop.exec keccak256 w.toV1 (c.account sender) c.toV1 = .ok w'.toV1 := by
  rw [← exec_toV1 (allowed_of_exec h), h]
  rfl

/-! ## The runs of both -/

theorem exec_self (h : exec keccak256 w sender c = .ok w') : w'.drop.self = w.drop.self := by
  cases c with
  | claim proof n b a =>
    obtain ⟨-, -, -, -, -, r, -, hw⟩ := Airdrop.claim_eq_ok (exec_toV1_ok h)
    exact congrArg (fun v => v.drop.self) hw
  | withdrawExpired =>
    obtain ⟨-, -, hx⟩ := Airdrop.withdrawExpired_eq_ok (exec_toV1_ok h)
    obtain ⟨t, -, hw⟩ := Airdrop.sendToDao_eq_ok hx
    exact congrArg (fun v => v.drop.self) hw
  | rescueReward =>
    obtain ⟨-, hx⟩ := Airdrop.rescueReward_eq_ok (exec_toV1_ok h)
    obtain ⟨t, -, hw⟩ := Airdrop.sendToDao_eq_ok hx
    exact congrArg (fun v => v.drop.self) hw
  | setRoot x =>
    obtain ⟨-, h⟩ := require_bind_eq_ok.1 h
    obtain ⟨-, h⟩ := require_bind_eq_ok.1 h
    cases h
    rfl
  | setDao a | startEarly | setLocker a =>
    obtain ⟨-, h⟩ := require_bind_eq_ok.1 h
    cases h
    rfl

theorem self_of_steps (hs : (system keccak256).Steps w₀ log w) : w.drop.self = w₀.drop.self := by
  refine hs.invariant (P := fun w => w.drop.self = w₀.drop.self) (fun w w' h he => ?_)
    (fun w w' sender c h _ hx => (exec_self hx).trans h) rfl
  exact (congrArg AuraMerkleDropV2.self (Elsewhere.drop he)).trans h

/-- Nobody claims for the zero account. -/
theorem account_ne_zero (h0 : sender ≠ 0) (h : exec keccak256 w sender c = .ok w') :
    c.account sender ≠ 0 := by
  cases c with
  | claim proof n b a =>
    rcases allowed_of_exec h with rfl | rfl
    · exact h0
    · obtain ⟨-, -, -, -, -, r, hr, -⟩ := Airdrop.claim_eq_ok (exec_toV1_ok h)
      replace hr : (w.payOut a n false).map (fun t => (t, 0, 0)) = .ok r :=
        (payOut_toV1 w a n false).symm.trans hr
      cases ht : w.payOut a n false with
      | error e =>
        rw [ht] at hr
        cases hr
      | ok t => exact (Erc20.transfer_eq_ok ht).2.1
  | _ => exact h0

theorem Elsewhere.toV1 (h : Elsewhere w w') : Airdrop.Elsewhere w.toV1 w'.toV1 where
  now := h.now
  aura := h.aura
  drop := by
    unfold World.toV1
    rw [h.drop]
  payments := h.payments

/-- What happens around the other contract happens around this one. -/
theorem exists_elsewhere {v : Airdrop.World} (h : Airdrop.Elsewhere w.toV1 v) :
    ∃ w', Elsewhere w w' ∧ w'.toV1 = v := by
  refine ⟨⟨v.now, v.aura, v.accepts, w.drop, w.payments⟩, ⟨h.now, h.aura, rfl, rfl⟩, ?_⟩
  obtain ⟨now, aura, accepts, drop, payments⟩ := v
  obtain rfl : drop = w.toV1.drop := h.drop
  obtain rfl : payments = w.payments := h.payments
  rfl

/-- A call of the other contract as one of this, a claim as one for the sender. Without a
forwarder nobody forwards a penalty. -/
def Call.ofV1 (sender : Address) : Airdrop.Call → Call
  | .setDao a => .setDao a
  | .setRoot x => .setRoot x
  | .startEarly => .startEarly
  | .withdrawExpired => .withdrawExpired
  | .setLocker a => .setLocker a
  | .rescueReward => .rescueReward
  | .claim proof n b => .claim proof n b sender
  | .forwardPenalty => .startEarly

def ofV1 (e : Event Address Airdrop.Call) : Event Address Call :=
  ⟨e.time, e.sender, .ofV1 e.sender e.call⟩

/-- A call of the other contract that returns does so in this one. -/
theorem exists_exec {c : Airdrop.Call} {v : Airdrop.World}
    (h : Airdrop.exec keccak256 w.toV1 sender c = .ok v) :
    ∃ w', exec keccak256 w sender (.ofV1 sender c) = .ok w' ∧ w'.toV1 = v := by
  have hmap : (exec keccak256 w sender (.ofV1 sender c)).map World.toV1 = .ok v := by
    cases c with
    | forwardPenalty =>
      obtain ⟨t, ht, -⟩ := Airdrop.forwardPenalty_eq_ok h
      exact absurd rfl (Erc20.transfer_eq_ok ht).2.1
    | claim proof n b => exact (claim_toV1 (.inl rfl)).trans h
    | setDao a => exact (exec_toV1 (c := .setDao a) trivial).trans h
    | setRoot x => exact (exec_toV1 (c := .setRoot x) trivial).trans h
    | startEarly => exact (exec_toV1 (c := .startEarly) trivial).trans h
    | withdrawExpired => exact (exec_toV1 (c := .withdrawExpired) trivial).trans h
    | setLocker a => exact (exec_toV1 (c := .setLocker a) trivial).trans h
    | rescueReward => exact (exec_toV1 (c := .rescueReward) trivial).trans h
  cases hx : exec keccak256 w sender (.ofV1 sender c) with
  | error e =>
    rw [hx] at hmap
    cases hmap
  | ok w' =>
    rw [hx] at hmap
    exact ⟨w', rfl, Except.ok.inj hmap⟩

theorem Deployed.toV1 (h : Deployed w) : Airdrop.Deployed w.toV1 := by
  refine ⟨h.self_ne, ?_, h.unapproved, h.payments⟩
  obtain ⟨d, root, aura, locker, delay, after, hd⟩ := h.deploy
  refine ⟨d, root, aura, locker, 0, delay, after, ?_⟩
  obtain ⟨hdao, hd⟩ := require_bind_eq_ok.1 hd
  obtain ⟨haura, hd⟩ := require_bind_eq_ok.1 hd
  obtain ⟨startTime, hstart, hd⟩ := bind_eq_ok.1 hd
  obtain ⟨hafter, hd⟩ := require_bind_eq_ok.1 hd
  obtain ⟨expiryTime, hexp, hd⟩ := bind_eq_ok.1 hd
  have hdrop := Except.ok.inj hd
  unfold Airdrop.deploy World.toV1
  dsimp only
  rw [require_of hdao, ok_bind, require_of haura, ok_bind, hstart, ok_bind, require_of hafter,
    ok_bind, hexp, ok_bind, ← hdrop]

theorem steps_toV1 (hs : (system keccak256).Steps w₀ log w)
    (hself : ∀ e ∈ log, e.call.account e.sender ≠ w₀.drop.self) :
    (Airdrop.system keccak256).Steps w₀.toV1 (log.map onBehalf) w.toV1 := by
  have hsim : ∃ v, (Airdrop.system keccak256).Steps w₀.toV1 (log.map onBehalf) v ∧
      (w.toV1 = v ∧ w.drop.self = w₀.drop.self) := by
    refine hs.simulate (R := fun w v => w.toV1 = v ∧ w.drop.self = w₀.drop.self) ?_ ?_ hself
      ⟨rfl, rfl⟩
    · rintro w w₁ v ⟨rfl, hw⟩ he
      exact ⟨w₁.toV1, he.toV1, rfl, (congrArg (·.self) he.drop).trans hw⟩
    · rintro w w₁ v sender c ⟨rfl, hw⟩ hcaller hne hx
      refine ⟨w₁.toV1, _, _, rfl, ⟨account_ne_zero hcaller.1 hx, ?_⟩, exec_toV1_ok hx, rfl,
        (exec_self hx).trans hw⟩
      exact fun he => hne (he.trans hw)
  obtain ⟨v, hs', rfl, -⟩ := hsim
  exact hs'

theorem exists_steps {log : Airdrop.Log} {v : Airdrop.World}
    (hs : (Airdrop.system keccak256).Steps w₀.toV1 log v) :
    ∃ w, (system keccak256).Steps w₀ (log.map ofV1) w ∧ w.toV1 = v := by
  refine hs.simulate (R := fun v (w : World) => w.toV1 = v) (P := fun _ => True) ?_ ?_
    (fun _ _ => trivial)
    rfl
  · rintro v v₁ w rfl he
    exact exists_elsewhere he
  · rintro v v₁ w sender c rfl hcaller - hx
    obtain ⟨w', hx', hw'⟩ := exists_exec hx
    exact ⟨w', sender, _, rfl, hcaller, hx', hw'⟩

theorem allowed_of_steps (hs : (system keccak256).Steps w₀ log w) :
    ∀ e ∈ log, e.call.Allowed e.sender := by
  induction hs with
  | refl => nofun
  | elsewhere _ _ ih => exact ih
  | call _ _ hx ih =>
    intro e he
    rcases List.mem_append.1 he with he | he
    · exact ih e he
    · rw [List.mem_singleton.1 he]
      exact allowed_of_exec hx

/-- The runs of the drop are the runs of an `AuraMerkleDrop` that has no penalty forwarder :
a claim for an account is there one of the account itself, unless the account is the drop, and
a lock is of the account here as well. -/
theorem v2_runs (keccak256 : Keccak) (w₀ : World) :
    (Deployed w₀ → Airdrop.Deployed w₀.toV1) ∧
    (∀ log w, (system keccak256).Steps w₀ log w →
      (∀ e ∈ log, e.call.Allowed e.sender) ∧
      ((∀ e ∈ log, e.call.account e.sender ≠ w₀.drop.self) →
        (Airdrop.system keccak256).Steps w₀.toV1 (log.map onBehalf) w.toV1)) ∧
    ∀ log v, (Airdrop.system keccak256).Steps w₀.toV1 log v →
      ∃ w, (system keccak256).Steps w₀ (log.map ofV1) w ∧ w.toV1 = v :=
  ⟨Deployed.toV1, fun _ _ hs => ⟨allowed_of_steps hs, steps_toV1 hs⟩, fun _ _ => exists_steps⟩

/-! ## Funding -/

theorem recorded_of_reachable (h : (system keccak256).Reachable log w) :
    Recorded keccak256 (log.map onBehalf) w.toV1 := by
  refine h.induct (P := fun log w => Recorded keccak256 (log.map onBehalf) w.toV1)
    (fun _ hd => .deployed (Deployed.toV1 hd))
    (fun _ _ _ h he => h.elsewhere (Elsewhere.toV1 he)) ?_
  intro log w w' sender c h _ hx
  rw [List.map_append]
  exact h.step (exec_toV1_ok hx)

/-- From a funded state before the first claim on, without a rescue. -/
theorem funded_of_steps (hH : keccak256.CollisionFree) (hone : (tree.leaves.map Prod.fst).Nodup)
    (h₀ : (system keccak256).Reachable log₀ w₀)
    (hnone : ∀ e ∈ log₀, e.call.toV1.isClaim = false)
    (hfund : (tree.leaves.map Prod.snd).sum ≤ w₀.aura.balanceOf w₀.drop.self)
    (hs : (system keccak256).Steps w₀ log w) (hres : ∀ e ∈ log, e.call ≠ .rescueReward)
    (hroot : w.drop.merkleRoot = 0 ∨ w.drop.merkleRoot = tree.root keccak256) :
    Funded tree.leaves (log.map onBehalf) w.toV1 := by
  obtain ⟨w₁, hd, hs₀⟩ := h₀
  induction hs with
  | refl =>
    have hrec := recorded_of_reachable ⟨w₁, hd, hs₀⟩
    have hclaimed : ∀ a, w₀.toV1.drop.hasClaimed a = false := hrec.fresh fun e he => by
      obtain ⟨e', he', rfl⟩ := List.mem_map.1 he
      exact hnone e' he'
    refine ⟨Nat.zero_le _, fun _ => ?_, by simp⟩
    rw [unclaimed_none hclaimed]
    exact hfund
  | elsewhere hs he ih =>
    have hrec := recorded_of_reachable ⟨w₁, hd, hs₀.trans hs⟩
    rw [he.drop] at hroot
    exact (ih hres hroot).elsewhere hrec.unapproved he.toV1
  | @call log w w' sender c hs hc hx ih =>
    have hrec := recorded_of_reachable ⟨w₁, hd, hs₀.trans hs⟩
    have hroot' : w.drop.merkleRoot = 0 ∨ w.drop.merkleRoot = tree.root keccak256 := by
      by_cases hr : w.drop.merkleRoot = 0
      · exact .inl hr
      · have hkeeps : w'.drop.merkleRoot = w.drop.merkleRoot :=
          (exec_frame (exec_toV1_ok hx)).2.2 hr
        rwa [hkeeps] at hroot
    have hih := ih (fun e he => hres e (List.mem_append_left _ he)) hroot'
    have hcall : c.toV1 ≠ .rescueReward := by
      have hne := hres _ (List.mem_append_right _ (List.mem_singleton_self _))
      cases c <;> first | exact absurd rfl hne | nofun
    rw [List.map_append]
    exact hih.step hH hone hrec.unapproved hroot' hcall (exec_toV1_ok hx)

/-- What a claim moves. -/
theorem claim_moves {proof : List ℕ} {n : ℕ} {b : Bool} (hall : w.aura.Unapproved w.drop.self)
    (h : w.claim keccak256 sender proof n b a = .ok w') :
    w'.aura.balanceOf =
      move w.aura.balanceOf w.drop.self (if b then w.drop.auraLocker else a) n := by
  have hx : exec keccak256 w sender (.claim proof n b a) = .ok w' := h
  obtain ⟨-, -, -, -, -, r, hr, hw⟩ := Airdrop.claim_eq_ok (exec_toV1_ok hx)
  replace hr : (w.payOut a n b).map (fun t => (t, 0, 0)) = .ok r :=
    (payOut_toV1 w a n b).symm.trans hr
  have haura : w'.aura = r.1 := congrArg (fun v => v.aura) hw
  have hpaid := Airdrop.payOut_eq_ok (w := w.toV1) hall ((payOut_toV1 w a n b).trans hr)
  cases ht : w.payOut a n b with
  | error e =>
    rw [ht] at hr
    cases hr
  | ok t =>
    rw [ht] at hr
    cases hr
    rw [haura]
    exact hpaid.2.2.2

/-- Once the drop holds the amounts of all leaves before the first claim, and without a
rescue : an account that has claimed was paid the amount of its leaf, once ; every claim moves
the whole amount, to the locker if the account itself wants a lock and else to the account ;
and while claims are open, anybody can claim for an account that has not claimed. -/
theorem everybody_paid (hH : keccak256.CollisionFree)
    (hone : (tree.leaves.map Prod.fst).Nodup) (h₀ : (system keccak256).Reachable log₀ w₀)
    (hnone : ∀ e ∈ log₀, e.call.toV1.isClaim = false)
    (hfund : (tree.leaves.map Prod.snd).sum ≤ w₀.aura.balanceOf w₀.drop.self)
    (hs : (system keccak256).Steps w₀ log w) (hres : ∀ e ∈ log, e.call ≠ .rescueReward)
    (hroot : w.drop.merkleRoot = tree.root keccak256) :
    (∀ a n, (a, n) ∈ tree.leaves →
      if w.drop.hasClaimed a then claimsOf a w.payments = [n] else claimsOf a w.payments = []) ∧
    (∀ sender proof n b a w', w.claim keccak256 sender proof n b a = .ok w' →
      (a, n) ∈ tree.leaves ∧ (b = true → sender = a) ∧ w'.aura.balanceOf =
        move w.aura.balanceOf w.drop.self (if b then w.drop.auraLocker else a) n) ∧
    (w.drop.merkleRoot ≠ 0 → w.drop.startTime < w.now → w.now < w.drop.expiryTime →
      ∀ a n, (a, n) ∈ tree.leaves → a ≠ 0 → 0 < n → w.drop.hasClaimed a = false →
        ∃ proof, ∀ sender, ∃ w', w.claim keccak256 sender proof n false a = .ok w') := by
  have hf := funded_of_steps hH hone h₀ hnone hfund hs hres (.inr hroot)
  obtain ⟨w₁, hd, hs₀⟩ := h₀
  have hrec := recorded_of_reachable ⟨w₁, hd, hs₀.trans hs⟩
  refine ⟨fun a n hmem => ?_, fun sender proof n b a w' hx => ?_,
    fun hr hstart hexp a n hmem ha hn hnew => ?_⟩
  · cases hc : w.drop.hasClaimed a with
    | false =>
      rw [if_neg Bool.false_ne_true]
      exact hrec.unpaid a hc
    | true =>
      rw [if_pos rfl]
      obtain ⟨m, hm, -, proof, hver⟩ := hrec.paid a hc
      have hver : keccak256.verify proof w.drop.merkleRoot (keccak256.leaf (a, m)) = true := hver
      rw [hroot] at hver
      -- an account has one leaf
      have hleaf := hH.mem_leaves hver
      have hsame : (a, m) = (a, n) := List.inj_on_of_nodup_map hone hleaf hmem rfl
      cases hsame
      exact hm
  · have hexec : exec keccak256 w sender (.claim proof n b a) = .ok w' := hx
    obtain ⟨-, -, -, -, hver, -⟩ := Airdrop.claim_eq_ok (exec_toV1_ok hexec)
    have hver : keccak256.verify proof w.drop.merkleRoot (keccak256.leaf (a, n)) = true := hver
    rw [hroot] at hver
    refine ⟨hH.mem_leaves hver, fun hb => ?_, claim_moves hrec.unapproved hx⟩
    rcases allowed_of_exec hexec with hsame | hfalse
    · exact hsame.symm
    · exact Bool.noConfusion (hb.symm.trans hfalse)
  · obtain ⟨proof, hver⟩ := hH.exists_verify hmem
    rw [← hroot] at hver
    have hself : w.drop.self ≠ 0 := by
      rw [self_of_steps (hs₀.trans hs)]
      exact hd.self_ne
    have hsum : unclaimed (update w.drop.hasClaimed a true) tree.leaves + n =
        unclaimed w.drop.hasClaimed tree.leaves := unclaimed_claim hone hmem hnew
    have hcovered : unclaimed w.drop.hasClaimed tree.leaves + 0 ≤ w.aura.balanceOf w.drop.self := by
      refine hf.funded fun e he hc => ?_
      have hlate : w.drop.expiryTime < w.now := hf.expired ⟨e, he, hc⟩
      omega
    have hfunded : n ≤ w.aura.balanceOf w.drop.self := by omega
    obtain ⟨t, ht⟩ := w.aura.exists_transfer hself ha hfunded
    refine ⟨proof, fun sender => ?_⟩
    have hsender : World.checkSender sender false a = .ok () := checkSender_eq_ok.2 (.inr rfl)
    have hpay : w.payOut a n false = .ok t := ht
    unfold World.claim
    dsimp only
    rw [hsender, ok_bind, require_of hr, ok_bind, require_of hstart, ok_bind, require_of hexp,
      ok_bind, require_of hn, ok_bind, require_of hnew, ok_bind, require_of hver, ok_bind, hpay]
    exact ⟨_, rfl⟩

/-! ## Runs -/

/-- The drop for `someTree` at the address 300, deployed at the time 1000 by the DAO 2. -/
def World.initial : World where
  now := 1000
  aura := Airdrop.World.initial.aura
  accepts _ _ n := decide (0 < n)
  drop := ⟨300, 2, someTree.root pairing, 200, 1000, 1100, 1100 + 1814400, fun _ => false⟩
  payments := []

theorem World.initial_deployed : Deployed World.initial where
  self_ne := show (300 : Address) ≠ 0 by decide
  deploy := by
    have hdao : (2 : Address) ≠ 0 := by decide
    have haura : (100 : Address) ≠ 0 := by decide
    refine ⟨2, someTree.root pairing, 100, 200, 100, 1814400, ?_⟩
    generalize hroot : someTree.root pairing = root
    unfold V2.deploy
    rw [require_of hdao, ok_bind, require_of haura, ok_bind, uadd_of (by decide), ok_bind,
      require_of (by decide), ok_bind, uadd_of (by decide), ok_bind, ← hroot]
    rfl
  unapproved _ := rfl
  payments := rfl

/-- The world at a later time. -/
def World.at (w : World) (now : ℕ) : World :=
  { w with now }

theorem World.elsewhere_at (w : World) (now : ℕ) (h : w.now ≤ now) : Elsewhere w (w.at now) :=
  ⟨h, Erc20.Others.refl _ _, rfl, rfl⟩

/-- The account 9 claims for the account 3, and the account 4 locks. -/
def World.someCalls : Log :=
  [⟨2000, 9, .claim [pairing.leaf (4, 60)] 100 false 3⟩,
    ⟨2200, 4, .claim [pairing.leaf (3, 100)] 60 true 4⟩]

/-- The run and one of the other contract. -/
theorem v2_runs_run : ∃ w, (system pairing).Steps World.initial World.someCalls w ∧
    (Airdrop.system pairing).Steps World.initial.toV1 (World.someCalls.map onBehalf) w.toV1 := by
  obtain ⟨w, hw⟩ := Tx.exists_ok (show ((system pairing).play World.at World.initial
    World.someCalls).returns = true by decide +kernel)
  have hsteps : (system pairing).Steps World.initial World.someCalls w :=
    .play World.elsewhere_at hw
  exact ⟨w, hsteps, ((v2_runs pairing World.initial).2.1 _ w hsteps).2 (by decide +kernel)⟩

/-- After the first claim anybody can claim for the account 4. -/
theorem everybody_paid_run : ∃ w, (system pairing).Steps World.initial
    [⟨2000, 9, .claim [pairing.leaf (4, 60)] 100 false 3⟩] w ∧
      claimsOf 3 w.payments = [100] ∧
        ∃ proof, ∀ sender, ∃ w', w.claim pairing sender proof 60 false 4 = .ok w' := by
  let log : Log := [⟨2000, 9, .claim [pairing.leaf (4, 60)] 100 false 3⟩]
  have hvalues : ((system pairing).play World.at World.initial log).map (fun w => (w.now,
      w.drop.merkleRoot, w.drop.startTime, w.drop.expiryTime, w.drop.hasClaimed 3,
        w.drop.hasClaimed 4)) =
      .ok (2000, someTree.root pairing, 1100, 1100 + 1814400, true, false) := by decide +kernel
  cases hw : (system pairing).play World.at World.initial log with
  | error e =>
    rw [hw] at hvalues
    cases hvalues
  | ok w =>
    rw [hw] at hvalues
    have hvalues := Except.ok.inj hvalues
    simp only [Prod.mk.injEq] at hvalues
    obtain ⟨hnow, hroot, hstart, hexp, hthree, hfour⟩ := hvalues
    have hsteps : (system pairing).Steps World.initial log w := .play World.elsewhere_at hw
    obtain ⟨hpaid, -, hopen⟩ := everybody_paid pairing_collisionFree
      (show (someTree.leaves.map Prod.fst).Nodup by decide +kernel)
      ⟨World.initial, World.initial_deployed, .refl⟩ (by simp)
      (by decide +kernel) hsteps (by decide +kernel) hroot
    have hne : w.drop.merkleRoot ≠ 0 := by
      rw [hroot]
      decide +kernel
    refine ⟨w, hsteps, ?_, hopen hne (by omega) (by omega) 4 60 (by decide)
      (show (4 : Address) ≠ 0 by decide) (by decide) hfour⟩
    have := hpaid 3 100 (by decide)
    rwa [hthree, if_pos rfl] at this

end Aura.Airdrop.V2
