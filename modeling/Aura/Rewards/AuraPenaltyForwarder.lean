import Aura.Evm.Others
import Aura.Evm.Run
import Aura.Rewards.Solvency

/-!
# Rewards : AuraPenaltyForwarder

`AuraPenaltyForwarder.sol` collects the penalties of those who take their AURA without a lock,
and from time to time adds all of them as a reward for those who have locked. Its runs are runs
of `ExtraRewardsDistributor` and `AuraLocker`; nothing else leaves it, and never twice within
the delay (`penalties_forwarded`). What is forwarded becomes claimable for those who had locked
at the epoch, up to a unit for each of them and the rounding of the rate
(`penalties_reach_lockers`).

Other distributors are a parameter of which nothing is known. The results are for runs in which
the owner does not replace the distributor (`KeepsDistributor`).
-/

open Evm Function Finset

namespace Aura.Penalty

/-- `IExtraRewardsDistributor` at other addresses. -/
class Distributors (δ : Type) where
  /-- `IExtraRewardsDistributor(distributor).addReward(_token, _amount)` on a call of `sender`. -/
  addReward : δ → (distributor sender _token : Address) → (_amount : ℕ) →
    (Address → Erc20 Address) → Tx (δ × (Address → Erc20 Address))

structure AuraPenaltyForwarder where
  /-- `address(this)`. -/
  self : Address
  owner : Address
  distributor : Address
  token : Address
  distributionDelay : ℕ
  lastDistribution : ℕ

/-- The constructor, at the time `now`. -/
def deploy (now : ℕ) (self _distributor _token : Address) (_delay : ℕ) (_dao : Address) :
    AuraPenaltyForwarder :=
  ⟨self, _dao, _distributor, _token, _delay, now⟩

/-- The event `Forwarded`, with its time. -/
structure Forwarded where
  time : ℕ
  amount : ℕ
  deriving DecidableEq

/-- The distributor with the locker, other distributors, and the forwarder. -/
structure World (δ : Type) where
  rewards : Rewards.World
  distributors : δ
  forwarder : AuraPenaltyForwarder
  forwarded : List Forwarded

variable {δ : Type}

namespace World

variable (w : World δ)

/-- `block.timestamp`. -/
def now : ℕ :=
  w.rewards.chain.now

/-- `token` of the forwarder. -/
def token : Erc20 Address :=
  w.rewards.chain.tokens w.forwarder.token

/-- What is to be forwarded. -/
def held : ℕ :=
  w.rewards.chain.balance w.forwarder.token w.forwarder.self

/-- The world with other balances of all tokens. -/
def withTokens (tokens : Address → Erc20 Address) : World δ :=
  { w with rewards := { w.rewards with chain := { w.rewards.chain with tokens } } }

def onlyOwner (sender : Address) : Tx Unit :=
  require (w.forwarder.owner = sender) "Ownable: caller is not the owner"

def setDistributor (sender _distributor : Address) : Tx (World δ) := do
  w.onlyOwner sender
  .ok { w with forwarder := { w.forwarder with distributor := _distributor } }

def transferOwnership (sender newOwner : Address) : Tx (World δ) := do
  w.onlyOwner sender
  require (newOwner ≠ 0) "Ownable: new owner is the zero address"
  .ok { w with forwarder := { w.forwarder with owner := newOwner } }

def renounceOwnership (sender : Address) : Tx (World δ) := do
  w.onlyOwner sender
  .ok { w with forwarder := { w.forwarder with owner := 0 } }

variable [Distributors δ]

/-- `distributor.addReward(address(token), bal)`, and the event. -/
def addReward (bal : ℕ) : Tx (World δ) := do
  let f := w.forwarder
  let forwarded := w.forwarded ++ [⟨w.now, bal⟩]
  if f.distributor = w.rewards.distributor.self then do
    let rewards ← w.rewards.addReward f.self f.token bal
    .ok { w with rewards, forwarded }
  else do
    let r ← Distributors.addReward w.distributors f.distributor f.self f.token bal
      w.rewards.chain.tokens
    .ok { w.withTokens r.2 with distributors := r.1, forwarded }

def forward : Tx (World δ) := do
  let f := w.forwarder
  let next ← uadd 256 f.lastDistribution f.distributionDelay
  require (next < w.now) "!elapsed"
  let bal := w.held
  require (0 < bal) "!empty"
  let t ← w.token.safeIncreaseAllowance f.self f.distributor bal
  let w := w.withTokens (update w.rewards.chain.tokens f.token t)
  { w with forwarder := { f with lastDistribution := w.now } }.addReward bal

end World

/-! ## Runs -/

/-- The functions that change the state. -/
inductive Call where
  | rewards (c : Rewards.Call)
  | forward
  | setDistributor (_distributor : Address)
  | transferOwnership (newOwner : Address)
  | renounceOwnership
  deriving DecidableEq

/-- Run a call of `sender`. -/
def exec [Distributors δ] (w : World δ) (sender : Address) : Call → Tx (World δ)
  | .rewards c => do
    let rewards ← Rewards.exec w.rewards sender c
    .ok { w with rewards }
  | .forward => w.forward
  | .setDistributor a => w.setDistributor sender a
  | .transferOwnership a => w.transferOwnership sender a
  | .renounceOwnership => w.renounceOwnership sender

/-- No call comes from the zero account or one of the contracts. -/
def IsCaller (w : World δ) (a : Address) : Prop :=
  Rewards.IsCaller w.rewards a ∧ a ≠ w.forwarder.self

instance (w : World δ) (a : Address) : Decidable (IsCaller w a) :=
  inferInstanceAs (Decidable (_ ∧ _))

/-- Time passes and tokens move. Only the distributor is approved to take from the forwarder. -/
structure Elsewhere (w w' : World δ) : Prop where
  rewards : Rewards.Elsewhere w.rewards w'.rewards
  forwarder : w'.forwarder = w.forwarder
  forwarded : w'.forwarded = w.forwarded
  held : w.held ≤ w'.held

/-- The forwarder was just deployed, for contracts that any run may have led to. -/
structure Deployed (w : World δ) : Prop where
  rewards : ∃ log, Rewards.Reachable log w.rewards
  forwarder : ∃ _distributor _token _delay _dao,
    w.forwarder = deploy w.now w.forwarder.self _distributor _token _delay _dao
  distributor : w.forwarder.distributor = w.rewards.distributor.self
  self_ne : w.forwarder.self ≠ 0
  locker_ne : w.forwarder.self ≠ w.rewards.chain.locker.config.self
  distributor_ne : w.forwarder.self ≠ w.rewards.distributor.self
  forwarded : w.forwarded = []

/-- The contracts and their surroundings. -/
def system (δ : Type) [Distributors δ] : System (World δ) Address Call where
  now := World.now
  IsCaller := IsCaller
  exec := exec
  Elsewhere := Elsewhere
  Deployed := Deployed

instance [Distributors δ] (w : World δ) (a : Address) : Decidable ((system δ).IsCaller w a) :=
  inferInstanceAs (Decidable (IsCaller w a))

abbrev Log := List (Event Address Call)

/-- Whether a call replaces the distributor. -/
def Call.replaces : Call → Bool
  | .setDistributor _ => true
  | _ => false

/-- The owner does not replace the distributor. -/
def KeepsDistributor (log : Log) : Prop :=
  ∀ e ∈ log, e.call.replaces = false

instance (log : Log) : Decidable (KeepsDistributor log) :=
  inferInstanceAs (Decidable (∀ e ∈ log, e.call.replaces = false))

/-! ## What `forward` does -/

variable {w w' w'' : World δ} {sender : Address}

/-- A world in which the forwarder has approved the distributor. -/
structure Approved (r r' : Rewards.World) : Prop where
  locker : r'.chain.locker = r.chain.locker
  now : r'.chain.now = r.chain.now
  balance : ∀ k, r'.chain.balance k = r.chain.balance k
  distributor : r'.distributor = r.distributor
  rewardPaid : r'.rewardPaid = r.rewardPaid

theorem Approved.elsewhere {r r' : Rewards.World} (h : Approved r r') : Rewards.Elsewhere r r' :=
  ⟨⟨h.locker, h.now.ge, fun k => (congrFun (h.balance k) _).ge⟩, h.distributor, h.rewardPaid,
    fun k => (congrFun (h.balance k) _).ge⟩

/-- All that the forwarder holds is added as a reward. -/
structure Forwards (w w' : World δ) : Prop where
  elapsed : w.forwarder.lastDistribution + w.forwarder.distributionDelay < w.now
  pos : 0 < w.held
  forwarder : w'.forwarder = { w.forwarder with lastDistribution := w.now }
  forwarded : w'.forwarded = w.forwarded ++ [⟨w.now, w.held⟩]
  now : w'.now = w.now
  add : ∃ r, Approved w.rewards r ∧
    (r.chain.tokens w.forwarder.token).allowance w.forwarder.self w.forwarder.distributor =
      w.token.allowance w.forwarder.self w.forwarder.distributor + w.held ∧
    r.addReward w.forwarder.self w.forwarder.token w.held = .ok w'.rewards

/-- What `addReward` of the distributor does, for the newest epoch. -/
theorem addReward_eq_ok {r r' : Rewards.World} {token : Address} {n : ℕ}
    (h : r.addReward sender token n = .ok r') : ∃ r₁, r.checkpointEpoch = .ok r₁ ∧
      Rewards.Funded r₁ r' sender token n r₁.latest ∧
      (r'.chain.tokens token).allowance sender r.distributor.self + n =
        (r.chain.tokens token).allowance sender r.distributor.self := by
  obtain ⟨r₁, h₁, h⟩ := bind_eq_ok.1 h
  obtain ⟨m, hm, h⟩ := bind_eq_ok.1 h
  obtain ⟨rfl, -⟩ := Rewards.World.latestEpoch_eq_ok hm
  refine ⟨r₁, h₁, Rewards.addReward_eq_ok h, ?_⟩
  obtain ⟨chain, hck, h₁⟩ := bind_eq_ok.1 h₁
  cases h₁
  obtain ⟨l, -, hck⟩ := bind_eq_ok.1 hck
  cases hck
  obtain ⟨-, h⟩ := require_bind_eq_ok.1 h
  obtain ⟨-, h⟩ := require_bind_eq_ok.1 h
  obtain ⟨t, ht, h⟩ := bind_eq_ok.1 h
  obtain ⟨_, -, h⟩ := bind_eq_ok.1 h
  obtain ⟨_, -, h⟩ := bind_eq_ok.1 h
  obtain ⟨_, -, h⟩ := bind_eq_ok.1 h
  obtain ⟨_, -, h⟩ := bind_eq_ok.1 h
  cases h
  dsimp only
  rw [update_self]
  exact Erc20.transferFrom_spent ht

section forward

variable [Distributors δ]

/-- With the distributor that is modelled. -/
theorem World.addReward_eq_ok {n : ℕ} (h : w.addReward n = .ok w')
    (hd : w.forwarder.distributor = w.rewards.distributor.self) : ∃ rewards,
      w.rewards.addReward w.forwarder.self w.forwarder.token n = .ok rewards ∧
        w' = { w with rewards, forwarded := w.forwarded ++ [⟨w.now, n⟩] } := by
  unfold World.addReward at h
  dsimp only at h
  rw [if_pos hd] at h
  obtain ⟨rewards, hr, h⟩ := bind_eq_ok.1 h
  exact ⟨rewards, hr, (Except.ok.inj h).symm⟩

theorem forward_eq_ok (hd : w.forwarder.distributor = w.rewards.distributor.self)
    (h : w.forward = .ok w') : Forwards w w' := by
  obtain ⟨next, hnext, h⟩ := bind_eq_ok.1 h
  obtain ⟨-, rfl⟩ := uadd_eq_ok.1 hnext
  obtain ⟨helapsed, h⟩ := require_bind_eq_ok.1 h
  obtain ⟨hpos, h⟩ := require_bind_eq_ok.1 h
  obtain ⟨t, ht, h⟩ := bind_eq_ok.1 h
  obtain ⟨r, hr, rfl⟩ := World.addReward_eq_ok h hd
  obtain ⟨r₁, h₁, hfund, -⟩ := addReward_eq_ok hr
  have hnow : r.chain.now = w.rewards.chain.now := by
    obtain ⟨chain, hck, h₁⟩ := bind_eq_ok.1 h₁
    cases h₁
    obtain ⟨l, -, hck⟩ := bind_eq_ok.1 hck
    cases hck
    exact hfund.moved.now
  refine ⟨helapsed, hpos, rfl, rfl, hnow,
    (w.withTokens (update w.rewards.chain.tokens w.forwarder.token t)).rewards,
    ⟨rfl, rfl, fun k => ?_, rfl, rfl⟩, ?_, hr⟩
  · have hb := (Erc20.safeIncreaseAllowance_eq_ok ht).1
    unfold World.withTokens
    rw [Locker.World.balance_update]
    split_ifs with hk
    · rw [hb, hk]
      rfl
    · rfl
  · obtain ⟨x, hx, ht⟩ := bind_eq_ok.1 ht
    obtain ⟨-, rfl⟩ := uadd_eq_ok.1 hx
    unfold World.withTokens
    dsimp only
    rw [update_self, Erc20.approve_allowance ht, if_pos ⟨rfl, rfl⟩]

end forward

/-- The forwarder is empty, and its allowance is what it was. -/
theorem Forwards.emptied (h : Forwards w w')
    (hd : w.forwarder.distributor = w.rewards.distributor.self)
    (hne : w.forwarder.self ≠ w.rewards.distributor.self) :
    w'.held = 0 ∧ w'.token.allowance w.forwarder.self w.forwarder.distributor =
      w.token.allowance w.forwarder.self w.forwarder.distributor := by
  obtain ⟨r, ha, hall, hr⟩ := h.add
  obtain ⟨r₁, h₁, hfund, hspent⟩ := addReward_eq_ok hr
  obtain ⟨-, hdist, -⟩ := Rewards.checkpointEpoch_eq_ok h₁
  have hb₁ : ∀ k, r₁.chain.balance k = w.rewards.chain.balance k := by
    obtain ⟨chain, hck, h₁⟩ := bind_eq_ok.1 h₁
    cases h₁
    obtain ⟨l, -, hck⟩ := bind_eq_ok.1 hck
    cases hck
    exact ha.balance
  constructor
  · unfold World.held
    rw [h.forwarder, hfund.moved.balance, if_pos rfl, hb₁, hdist, ha.distributor,
      move_src _ _ hne]
    exact Nat.sub_self _
  · have htoken : w'.token = w'.rewards.chain.tokens w.forwarder.token := by
      unfold World.token
      rw [h.forwarder]
    rw [ha.distributor, ← hd, hall] at hspent
    rw [htoken]
    exact Nat.add_right_cancel hspent

/-! ## What a run does -/

/-- The rewards that `self` added in a run of the distributor. -/
def addedBy (self : Address) (log : List Rewards.Event) : List (Address × ℕ) :=
  log.filterMap fun e =>
    match e.call with
    | .addReward token n => if e.sender = self then some (token, n) else none
    | _ => none

/-- What was forwarded. -/
def total (l : List Forwarded) : ℕ :=
  (l.map Forwarded.amount).sum

/-- Each time comes more than `delay` after the one before, and the first one after `last`. -/
def Spaced (delay : ℕ) : ℕ → List ℕ → Prop
  | _, [] => True
  | last, t :: ts => last + delay < t ∧ Spaced delay t ts

theorem addedBy_append (self : Address) (l l' : List Rewards.Event) :
    addedBy self (l ++ l') = addedBy self l ++ addedBy self l' :=
  List.filterMap_append

theorem total_append (l l' : List Forwarded) : total (l ++ l') = total l + total l' := by
  unfold total
  rw [List.map_append, List.sum_append]

theorem Spaced.append {delay : ℕ} {ts ts' : List ℕ} :
    ∀ {last : ℕ}, Spaced delay last ts → Spaced delay (ts.getLastD last) ts' →
      Spaced delay last (ts ++ ts') := by
  induction ts with
  | nil => exact fun _ h => h
  | cons t ts ih =>
    intro last h h'
    rw [List.getLastD_cons] at h'
    exact ⟨h.1, ih h.2 h'⟩

/-- What a run does from `w` to `w'`. -/
structure Progress (w w' : World δ) : Prop where
  self : w'.forwarder.self = w.forwarder.self
  token : w'.forwarder.token = w.forwarder.token
  distributor : w'.forwarder.distributor = w.forwarder.distributor
  distributionDelay : w'.forwarder.distributionDelay = w.forwarder.distributionDelay
  steps : ∃ log new, Rewards.Steps w.rewards log w'.rewards ∧ w'.forwarded = w.forwarded ++ new ∧
    addedBy w.forwarder.self log = new.map (fun f => (w.forwarder.token, f.amount)) ∧
    Spaced w.forwarder.distributionDelay w.forwarder.lastDistribution (new.map Forwarded.time) ∧
    w'.forwarder.lastDistribution =
      (new.map Forwarded.time).getLastD w.forwarder.lastDistribution
  held : w.held + total w.forwarded ≤ w'.held + total w'.forwarded

theorem Progress.refl (w : World δ) : Progress w w :=
  ⟨rfl, rfl, rfl, rfl, ⟨[], [], .refl, (List.append_nil _).symm, rfl, trivial, rfl⟩, le_rfl⟩

theorem Progress.trans (h : Progress w w') (h' : Progress w' w'') : Progress w w'' := by
  refine ⟨h'.self.trans h.self, h'.token.trans h.token, h'.distributor.trans h.distributor,
    h'.distributionDelay.trans h.distributionDelay, ?_, h.held.trans h'.held⟩
  obtain ⟨log, new, hs, hf, ha, ht, hl⟩ := h.steps
  obtain ⟨log', new', hs', hf', ha', ht', hl'⟩ := h'.steps
  refine ⟨log ++ log', new ++ new', hs.trans hs', ?_, ?_, ?_, ?_⟩
  · rw [hf', hf, List.append_assoc]
  · rw [h.self, h.token] at ha'
    rw [addedBy_append, ha, ha', List.map_append]
  · rw [h.distributionDelay, hl] at ht'
    rw [List.map_append]
    exact ht.append ht'
  · rw [hl', hl, List.map_append]
    cases new' with
    | nil => rw [List.map_nil, List.append_nil]; rfl
    | cons f fs => simp [List.getLastD_eq_getLast?]

/-- A step that forwards nothing. -/
theorem Progress.quiet {log : List Rewards.Event} (hself : w'.forwarder.self = w.forwarder.self)
    (htoken : w'.forwarder.token = w.forwarder.token)
    (hdistributor : w'.forwarder.distributor = w.forwarder.distributor)
    (hdelay : w'.forwarder.distributionDelay = w.forwarder.distributionDelay)
    (hlast : w'.forwarder.lastDistribution = w.forwarder.lastDistribution)
    (hf : w'.forwarded = w.forwarded) (hs : Rewards.Steps w.rewards log w'.rewards)
    (ha : addedBy w.forwarder.self log = []) (hheld : w.held ≤ w'.held) : Progress w w' := by
  refine ⟨hself, htoken, hdistributor, hdelay,
    ⟨log, [], hs, by rw [hf, List.append_nil], ha, trivial, hlast⟩, ?_⟩
  rw [hf]
  exact Nat.add_le_add_right hheld _

/-- What every world of a run is. -/
structure Sound (w : World δ) : Prop where
  rewards : ∃ log, Rewards.Reachable log w.rewards
  distributor : w.forwarder.distributor = w.rewards.distributor.self
  self_ne : w.forwarder.self ≠ 0
  locker_ne : w.forwarder.self ≠ w.rewards.chain.locker.config.self
  distributor_ne : w.forwarder.self ≠ w.rewards.distributor.self

theorem Deployed.sound (h : Deployed w) : Sound w :=
  ⟨h.rewards, h.distributor, h.self_ne, h.locker_ne, h.distributor_ne⟩

theorem Sound.progress (h : Sound w) (hp : Progress w w') : Sound w' := by
  obtain ⟨log, _, hs, -⟩ := hp.steps
  obtain ⟨log₀, w₀, h₀, hs₀⟩ := h.rewards
  have hjoint : Rewards.Joint w.rewards := Rewards.Reachable.joint ⟨w₀, h₀, hs₀⟩
  obtain ⟨⟨lockerLog, hlocker⟩, hself⟩ := hjoint.steps hs
  refine ⟨⟨_, w₀, h₀, hs₀.trans hs⟩, ?_, hp.self ▸ h.self_ne, ?_, ?_⟩
  · rw [hp.distributor, hself]
    exact h.distributor
  · rw [hp.self, hlocker.self_eq]
    exact h.locker_ne
  · rw [hp.self, hself]
    exact h.distributor_ne

theorem Elsewhere.progress (h : Elsewhere w w') : Progress w w' :=
  .quiet (by rw [h.forwarder]) (by rw [h.forwarder]) (by rw [h.forwarder]) (by rw [h.forwarder])
    (by rw [h.forwarder]) h.forwarded (.elsewhere .refl h.rewards) rfl h.held

theorem Sound.forwards (h : Sound w) (hf : Forwards w w') : Progress w w' := by
  obtain ⟨r, ha, -, hr⟩ := hf.add
  have hne : w.forwarder.self ≠ r.chain.locker.config.self := by
    rw [ha.locker]
    exact h.locker_ne
  have hcaller : Rewards.IsCaller r w.forwarder.self :=
    ⟨⟨h.self_ne, hne⟩, by rw [ha.distributor]; exact h.distributor_ne⟩
  have happroved : Rewards.Steps w.rewards [] r := .elsewhere .refl ha.elsewhere
  have hadd : Rewards.exec r w.forwarder.self (.addReward w.forwarder.token w.held) =
      .ok w'.rewards := hr
  refine ⟨by rw [hf.forwarder], by rw [hf.forwarder], by rw [hf.forwarder], by rw [hf.forwarder],
    ⟨_, _, .call happroved hcaller hadd, hf.forwarded, ?_, ⟨hf.elapsed, trivial⟩, ?_⟩, ?_⟩
  · simp [addedBy]
  · rw [hf.forwarder]
    rfl
  · rw [hf.forwarded, total_append, (hf.emptied h.distributor h.distributor_ne).1]
    simp [total]
    omega

variable [Distributors δ] {c : Call}

/-- What a call does. -/
theorem Sound.exec (h : Sound w) (hc : IsCaller w sender) (hkeep : c.replaces = false)
    (hx : Penalty.exec w sender c = .ok w') : Progress w w' := by
  cases c with
  | rewards d =>
    obtain ⟨r, hr, hw⟩ := bind_eq_ok.1 hx
    cases hw
    refine .quiet rfl rfl rfl rfl rfl rfl (.call .refl hc.1 hr) ?_
      (Rewards.exec_balance_le hc.2.symm h.locker_ne h.distributor_ne hr _)
    unfold addedBy
    cases d <;> simp [hc.2]
  | forward => exact h.forwards (forward_eq_ok h.distributor hx)
  | setDistributor a => cases hkeep
  | transferOwnership a =>
    obtain ⟨-, hx⟩ := require_bind_eq_ok.1 hx
    obtain ⟨-, hx⟩ := require_bind_eq_ok.1 hx
    cases hx
    exact .quiet rfl rfl rfl rfl rfl rfl .refl rfl le_rfl
  | renounceOwnership =>
    obtain ⟨-, hx⟩ := require_bind_eq_ok.1 hx
    cases hx
    exact .quiet rfl rfl rfl rfl rfl rfl .refl rfl le_rfl

/-- What a run does. -/
theorem Sound.steps {log : Log} (h : Sound w) (hs : (system δ).Steps w log w')
    (hkeep : KeepsDistributor log) : Progress w w' := by
  induction hs with
  | refl => exact .refl _
  | elsewhere _ he ih => exact (ih hkeep).trans (Elsewhere.progress he)
  | call _ hc hx ih =>
    have hp := ih fun e he => hkeep e (List.mem_append_left _ he)
    have hlast := hkeep _ (List.mem_append_right _ (List.mem_singleton_self _))
    exact hp.trans ((h.progress hp).exec hc hlast hx)

variable {w₀ : World δ} {log : Log}

/-- As long as the owner does not replace the distributor : a run is one of the distributor, in
which the forwarder adds exactly what it says to forward; it does so more than the delay after
the deployment or the time before, and then all that it holds, with no allowance left over;
and from any point of the run on nothing else leaves it. -/
theorem penalties_forwarded (h₀ : Deployed w₀) (hs : (system δ).Steps w₀ log w)
    (hkeep : KeepsDistributor log) :
    (∃ rewardsLog, Rewards.Steps w₀.rewards rewardsLog w.rewards ∧
      addedBy w.forwarder.self rewardsLog =
        w.forwarded.map fun f => (w.forwarder.token, f.amount)) ∧
    Spaced w.forwarder.distributionDelay w₀.now (w.forwarded.map Forwarded.time) ∧
    (∀ w', w.forward = .ok w' → w'.held = 0 ∧
      w'.token.allowance w.forwarder.self w.forwarder.distributor =
        w.token.allowance w.forwarder.self w.forwarder.distributor) ∧
    ∀ log' w', (system δ).Steps w log' w' → KeepsDistributor log' →
      w.held + total w.forwarded ≤ w'.held + total w'.forwarded := by
  have hp := h₀.sound.steps hs hkeep
  have hsound := h₀.sound.progress hp
  obtain ⟨rewardsLog, new, hrewards, hf, ha, ht, -⟩ := hp.steps
  have hlast : w₀.forwarder.lastDistribution = w₀.now := by
    obtain ⟨_, _, _, _, hd⟩ := h₀.forwarder
    rw [hd]
    rfl
  rw [h₀.forwarded, List.nil_append] at hf
  refine ⟨⟨rewardsLog, hrewards, ?_⟩, ?_, fun w' hx => ?_,
    fun log' w' hs' hkeep' => (hsound.steps hs' hkeep').held⟩
  · rw [hp.self, hp.token, ha, hf]
  · rw [hp.distributionDelay, hf, ← hlast]
    exact ht
  · exact (forward_eq_ok hsound.distributor hx).emptied hsound.distributor hsound.distributor_ne

/-! ## What lockers get of it -/

/-- A rate that was rounded down, times the supply, times `10 ^ 20`, and the portions of it. -/
theorem lt_gains {B : Address → ℕ} {S n d : ℕ} (hsum : ∑ u, B u = S) (hpos : 0 < S) :
    n * 10 ^ 20 < (∑ u, (B u * (d + n * 10 ^ 20 / S) / 10 ^ 20 - B u * d / 10 ^ 20) +
      (univ.filter fun u => 0 < B u).card) * 10 ^ 20 + S := by
  set holders := univ.filter fun u => 0 < B u with hholders
  set rate := n * 10 ^ 20 / S
  have hsup : ∑ u ∈ holders, B u = S := by
    rw [← hsum]
    refine sum_subset (subset_univ _) fun u _ hu => ?_
    rw [hholders, mem_filter, not_and, not_lt] at hu
    exact Nat.le_zero.1 (hu (mem_univ u))
  have hgain : ∀ u, ProRata.portion rate (10 ^ 20) (B u) ≤
      B u * (d + rate) / 10 ^ 20 - B u * d / 10 ^ 20 := fun u => by
    rw [ProRata.portion, Nat.mul_add, Nat.mul_comm rate]
    exact Nat.le_sub_of_add_le' Nat.div_add_div_le_add_div
  have hgains : ∑ u ∈ holders, ProRata.portion rate (10 ^ 20) (B u) ≤
      ∑ u, (B u * (d + rate) / 10 ^ 20 - B u * d / 10 ^ 20) :=
    (sum_le_sum fun u _ => hgain u).trans (sum_le_sum_of_subset (subset_univ _))
  have hrate : n * 10 ^ 20 < rate * S + S := by
    rw [Nat.mul_comm rate, ← Nat.mul_succ]
    exact Nat.lt_mul_div_succ _ hpos
  have hportions := ProRata.le_sum_portion_finset_add holders B rate (s := 10 ^ 20) (by norm_num)
  rw [hsup] at hportions
  have hmul := Nat.mul_le_mul_right (10 ^ 20) (Nat.add_le_add_right hgains holders.card)
  omega

/-- What is forwarded raises what those who had locked at the newest epoch can claim for it, by
all of it but less than a unit for each of them and the rounding of the rate. What they can
claim with the data of a distributor is what `_claimableRewards` returns, unless it overflows. -/
theorem penalties_reach_lockers (h₀ : Deployed w₀) (hs : (system δ).Steps w₀ log w)
    (hkeep : KeepsDistributor log) (hfit : Locker.Fits w.now) (hx : w.forward = .ok w') :
    ∃ (e S : ℕ) (B : Address → ℕ), w'.rewards.latestEpoch = .ok e ∧
      w'.rewards.totalSupplyAtEpoch e = .ok S ∧
      (∀ u, w'.rewards.balanceAtEpochOf e u = .ok (B u)) ∧
      let claimable (d : Rewards.ExtraRewardsDistributor) (u : Address) : ℕ :=
        B u * d.rewardData w.forwarder.token e / 10 ^ 20
      (∀ d u, B u * d.rewardData w.forwarder.token e < 2 ^ 256 →
        { w'.rewards with distributor := d }._claimableRewards u w.forwarder.token e =
          .ok (claimable d u)) ∧
      w.held * 10 ^ 20 <
        (∑ u, (claimable w'.rewards.distributor u - claimable w.rewards.distributor u) +
          (univ.filter fun u => 0 < B u).card) * 10 ^ 20 + S := by
  have hsound := h₀.sound.progress (h₀.sound.steps hs hkeep)
  have hf := forward_eq_ok hsound.distributor hx
  obtain ⟨_, hr'⟩ := (hsound.progress (hsound.forwards hf)).rewards
  obtain ⟨lockerLog, hlocker⟩ := hr'.joint.chain
  have hfit' : Locker.Fits w'.rewards.chain.now := by
    have hnow : w'.rewards.chain.now = w.now := hf.now
    rwa [hnow]
  obtain ⟨B, S, hv⟩ := Rewards.exists_views hlocker hfit'
  obtain ⟨r, ha, -, hadd⟩ := hf.add
  obtain ⟨r₁, h₁, hfund, -⟩ := addReward_eq_ok hadd
  obtain ⟨supply, hsupply, hne, hdata⟩ := hfund.rate
  have hsupply' : w'.rewards.totalSupplyAtEpoch r₁.latest = .ok supply := by
    rw [← hsupply]
    unfold Rewards.World.totalSupplyAtEpoch
    rw [hfund.moved.locker, hfund.moved.now]
  obtain rfl := hv.supply _ _ hsupply'
  have hlatest : w'.rewards.latestEpoch = .ok r₁.latest := by
    obtain ⟨r₁', hck, hadd⟩ := bind_eq_ok.1 hadd
    obtain ⟨m, hm, -⟩ := bind_eq_ok.1 hadd
    obtain rfl : r₁' = r₁ := Except.ok.inj (hck.symm.trans h₁)
    obtain ⟨rfl, -⟩ := Rewards.World.latestEpoch_eq_ok hm
    rw [← hm]
    unfold Rewards.World.latestEpoch
    rw [hfund.moved.locker]
  have hbalance := hv.balance _ _ hsupply'
  obtain ⟨-, hdist, -⟩ := Rewards.checkpointEpoch_eq_ok h₁
  refine ⟨r₁.latest, S r₁.latest, B r₁.latest, hlatest, hsupply', hbalance, fun d u hu => ?_, ?_⟩
  · have hread : { w'.rewards with distributor := d }.balanceAtEpochOf r₁.latest u =
        .ok (B r₁.latest u) := hbalance u
    unfold Rewards.World._claimableRewards
    rw [hread, ok_bind, umul_of hu, ok_bind]
  · dsimp only
    rw [hdata, update_self, update_self, hdist, ha.distributor]
    exact lt_gains (hv.sum _ _ hsupply') (Nat.pos_of_ne_zero hne)

/-! ## A run -/

instance : Distributors Unit where
  addReward _ _ _ _ _ tokens := .ok ((), tokens)

/-- The account 500 holds 1000000 of the token 400. -/
def World.someTokens : Address → Erc20 Address :=
  update (Locker.World.initial 0).tokens 400
    (Erc20.single 500 1000000 (by norm_num) fun _ _ => 0)

/-- The forwarder 500 of the token 400, for the distributor 300. -/
def World.initial : World Unit where
  rewards :=
    let r := Rewards.World.initial (20 * Locker.rewardsDuration)
    { r with chain := { r.chain with tokens := World.someTokens } }
  distributors := ()
  forwarder := deploy (20 * Locker.rewardsDuration) 500 300 400 100 101
  forwarded := []

theorem World.initial_deployed : Deployed World.initial where
  rewards := ⟨[], _, ⟨⟨[], _, ⟨show 0 < 20 * Locker.rewardsDuration by decide,
    show (100 : Address) ≠ 0 by decide, rfl⟩, .refl⟩, show (300 : Address) ≠ 0 by decide,
    show (300 : Address) ≠ 100 by decide, rfl, rfl⟩, .refl⟩
  forwarder := ⟨300, 400, 100, 101, rfl⟩
  distributor := rfl
  self_ne := show (500 : Address) ≠ 0 by decide
  locker_ne := show (500 : Address) ≠ 100 by decide
  distributor_ne := show (500 : Address) ≠ 300 by decide
  forwarded := rfl

/-- The world at a later time. -/
def World.at (w : World Unit) (now : ℕ) : World Unit :=
  { w with rewards := w.rewards.at now }

theorem World.elsewhere_at (w : World Unit) (now : ℕ) (h : (system Unit).now w ≤ now) :
    (system Unit).Elsewhere w (w.at now) :=
  ⟨⟨⟨rfl, h, fun _ => le_rfl⟩, rfl, rfl, fun _ => le_rfl⟩, rfl, rfl, le_rfl⟩

/-- The account 1 locks, and the forwarder may add rewards a second into the next week. -/
def World.beforeForward : Log :=
  [⟨20 * Locker.rewardsDuration, 1, .rewards (.locker (.lock 1 5))⟩,
    ⟨21 * Locker.rewardsDuration + 1, 101, .rewards (.modifyWhitelist 500 true)⟩]

/-- The penalties are forwarded. -/
theorem penalties_forwarded_run : ∃ w, (system Unit).Steps World.initial
      (World.beforeForward ++ [⟨21 * Locker.rewardsDuration + 1, 9, .forward⟩]) w ∧
    w.forwarded = [⟨21 * Locker.rewardsDuration + 1, 1000000⟩] ∧
    ∃ rewardsLog, addedBy w.forwarder.self rewardsLog = [(w.forwarder.token, 1000000)] ∧
      Rewards.Steps World.initial.rewards rewardsLog w.rewards := by
  let log : Log := World.beforeForward ++ [⟨21 * Locker.rewardsDuration + 1, 9, .forward⟩]
  have hvalues : ((system Unit).play World.at World.initial log).map World.forwarded =
      .ok [⟨21 * Locker.rewardsDuration + 1, 1000000⟩] := by decide +kernel
  cases hw : (system Unit).play World.at World.initial log with
  | error e =>
    rw [hw] at hvalues
    cases hvalues
  | ok w =>
    rw [hw] at hvalues
    have hf : w.forwarded = _ := Except.ok.inj hvalues
    have hsteps : (system Unit).Steps World.initial log w := .play World.elsewhere_at hw
    obtain ⟨⟨rewardsLog, hrewards, hadded⟩, -⟩ :=
      penalties_forwarded World.initial_deployed hsteps (by decide)
    rw [hf] at hadded
    exact ⟨w, hsteps, hf, rewardsLog, hadded, hrewards⟩

/-- The account 1 can claim of what is forwarded. -/
theorem penalties_reach_lockers_run : ∃ w w', (system Unit).Steps World.initial
      World.beforeForward w ∧ w.held = 1000000 ∧ w.forward = .ok w' ∧
    ∃ (e S : ℕ) (B : Address → ℕ), w'.rewards.totalSupplyAtEpoch e = .ok S ∧
      1000000 * 10 ^ 20 < (∑ u,
        (B u * w'.rewards.distributor.rewardData w.forwarder.token e / 10 ^ 20 -
          B u * w.rewards.distributor.rewardData w.forwarder.token e / 10 ^ 20) +
        (univ.filter fun u => 0 < B u).card) * 10 ^ 20 + S := by
  have hvalues : ((system Unit).play World.at World.initial World.beforeForward).map
      (fun w => (w.held, w.now, w.forward.returns)) =
      .ok (1000000, 21 * Locker.rewardsDuration + 1, true) := by decide +kernel
  cases hw : (system Unit).play World.at World.initial World.beforeForward with
  | error e =>
    rw [hw] at hvalues
    cases hvalues
  | ok w =>
    rw [hw] at hvalues
    have hvalues := Except.ok.inj hvalues
    simp only [Prod.mk.injEq] at hvalues
    obtain ⟨hheld, hnow, hreturns⟩ := hvalues
    obtain ⟨w', hx⟩ := Tx.exists_ok hreturns
    have hsteps : (system Unit).Steps World.initial World.beforeForward w :=
      .play World.elsewhere_at hw
    obtain ⟨e, S, B, -, hsupply, -, -, hlt⟩ := penalties_reach_lockers World.initial_deployed hsteps
      (by decide) (by rw [hnow]; decide) hx
    rw [hheld] at hlt
    exact ⟨w, w', hsteps, hheld, hx, e, S, B, hsupply, hlt⟩

end Aura.Penalty
