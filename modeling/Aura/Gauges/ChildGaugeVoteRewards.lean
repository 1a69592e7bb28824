import Aura.Evm.Loop
import Aura.Gauges.GaugeVoteRewards

/-!
# Gauges : ChildGaugeVoteRewards

`ChildGaugeVoteRewards.sol`, the other end of `GaugeVoteRewards` on a sidechain : it stores
the amounts that a message brings, and funds the pool of a gauge with its amount once.

The fields of `LzApp` are left out, since they only decide whether a message is delivered. The
field `payments` records what was handed out and is read by no function.
-/

open Evm Function

namespace Aura.Gauges

structure ChildGaugeVoteRewards where
  /-- `block.timestamp`. -/
  now : ℕ
  /-- `address(this)`. -/
  self : Address
  owner : Address
  aura : Address
  tokens : Address → Erc20 Address
  stashRewardDistro : StashRewardDistro
  /-- The gauges of the pools of the Booster. -/
  poolGauges : List Address
  distributor : Address
  /-- Epoch, gauge. -/
  getAmountToSendByEpoch : ℕ → Address → ℕ
  /-- Epoch, gauge. -/
  getAmountSentByEpoch : ℕ → Address → ℕ
  getPoolId : Address → Pid
  payments : List Payment

namespace ChildGaugeVoteRewards

def onlyOwner (s : ChildGaugeVoteRewards) (sender : Address) : Tx Unit :=
  require (s.owner = sender) "Ownable: caller is not the owner"

def onlyDistributor (s : ChildGaugeVoteRewards) (sender : Address) : Tx Unit :=
  require (sender = s.distributor) "!distributor"

def setDistributor (s : ChildGaugeVoteRewards) (sender _distributor : Address) :
    Tx ChildGaugeVoteRewards := do
  s.onlyOwner sender
  .ok { s with distributor := _distributor }

/-- One round of the loop of `setPoolIds`. -/
def setPoolId (s : ChildGaugeVoteRewards) (i : ℕ) : Tx ChildGaugeVoteRewards := do
  let gauge ← index s.poolGauges i
  .ok { s with getPoolId := update s.getPoolId gauge ⟨trunc 128 i, true⟩ }

/-- `setPoolIds`. -/
def setPoolIds (s : ChildGaugeVoteRewards) (start stop : ℕ) : Tx ChildGaugeVoteRewards :=
  (List.range' start (stop - start)).foldlM setPoolId s

/-- `_getAmountToSend`. -/
def _getAmountToSend (s : ChildGaugeVoteRewards) (_epoch : ℕ) (_gauge : Address) :
    Tx (ChildGaugeVoteRewards × ℕ) := do
  let amountToSend := s.getAmountToSendByEpoch _epoch _gauge
  require (amountToSend ≠ 0) "amountToSend=0"
  let amountSent := s.getAmountSentByEpoch _epoch _gauge
  require (amountSent = 0) "amountSent!=0"
  .ok ({ s with
    getAmountSentByEpoch := update s.getAmountSentByEpoch _epoch
      (update (s.getAmountSentByEpoch _epoch) _gauge amountToSend) }, amountToSend)

/-- One round of the loop of `processGaugeRewards`. -/
def processGauge (_epoch : ℕ) (s : ChildGaugeVoteRewards) (gauge : Address) :
    Tx ChildGaugeVoteRewards := do
  let r ← s._getAmountToSend _epoch gauge
  let s := r.1
  let pid := s.getPoolId gauge
  require (pid.isSet = true) "!poolId"
  let f ← s.stashRewardDistro.fundPool s.now s.tokens s.self pid.value s.aura r.2 2
  .ok { s with
    stashRewardDistro := f.1
    tokens := f.2
    payments := ⟨_epoch, gauge, r.2⟩ :: s.payments }

/-- `processGaugeRewards`. -/
def processGaugeRewards (s : ChildGaugeVoteRewards) (sender : Address) (_epoch : ℕ)
    (_gauge : List Address) : Tx ChildGaugeVoteRewards := do
  s.onlyDistributor sender
  _gauge.foldlM (processGauge _epoch) s

/-- `transferERC20`. -/
def transferERC20 (s : ChildGaugeVoteRewards) (sender _token _to : Address) (_amount : ℕ) :
    Tx ChildGaugeVoteRewards := do
  s.onlyOwner sender
  let t ← (s.tokens _token).transfer s.self _to _amount
  .ok { s with tokens := update s.tokens _token t }

/-- One round of the loop of `_blockingLzReceive`. -/
def receiveGauge (epoch : ℕ) (s : ChildGaugeVoteRewards) (payload : Address × ℕ) :
    ChildGaugeVoteRewards :=
  { s with
    getAmountToSendByEpoch := update s.getAmountToSendByEpoch epoch
      (update (s.getAmountToSendByEpoch epoch) payload.1 payload.2) }

/-- `_blockingLzReceive` of an epoch and its payloads. -/
def _blockingLzReceive (s : ChildGaugeVoteRewards) (epoch : ℕ)
    (payloads : List (Address × ℕ)) : ChildGaugeVoteRewards :=
  payloads.foldl (receiveGauge epoch) s

inductive Call where
  | setDistributor (_distributor : Address)
  | setPoolIds (start stop : ℕ)
  | processGaugeRewards (_epoch : ℕ) (_gauge : List Address)
  | transferERC20 (_token _to : Address) (_amount : ℕ)
  deriving DecidableEq

/-- Run a call of `sender`. -/
def exec (s : ChildGaugeVoteRewards) (sender : Address) : Call → Tx ChildGaugeVoteRewards
  | .setDistributor a => s.setDistributor sender a
  | .setPoolIds i j => s.setPoolIds i j
  | .processGaugeRewards e gs => s.processGaugeRewards sender e gs
  | .transferERC20 t a n => s.transferERC20 sender t a n

/-- Time passes, tokens move, the funds of the distributor change and pools are added. -/
def Elsewhere (s s' : ChildGaugeVoteRewards) : Prop :=
  ∃ now tokens getFunds poolGauges, s.now ≤ now ∧
    s' = { s with
      now, tokens, poolGauges
      stashRewardDistro := { s.stashRewardDistro with getFunds } }

/-- The contract was just deployed. -/
structure Deployed (s : ChildGaugeVoteRewards) : Prop where
  getAmountToSendByEpoch : s.getAmountToSendByEpoch = fun _ _ => 0
  getAmountSentByEpoch : s.getAmountSentByEpoch = fun _ _ => 0
  payments : s.payments = []

/-! ## What the functions do to the amounts -/

/-- The amounts handed out for a gauge and an epoch. -/
def paid (s : ChildGaugeVoteRewards) (epoch : ℕ) (gauge : Address) : List ℕ :=
  (s.payments.filter fun p => p.epoch = epoch ∧ p.gauge = gauge).map Payment.amount

/-- The amounts are the same. -/
structure Same (s s' : ChildGaugeVoteRewards) : Prop where
  getAmountToSendByEpoch : s'.getAmountToSendByEpoch = s.getAmountToSendByEpoch
  getAmountSentByEpoch : s'.getAmountSentByEpoch = s.getAmountSentByEpoch
  payments : s'.payments = s.payments

/-- The amount of a gauge was handed out. -/
structure Forwarded (s s' : ChildGaugeVoteRewards) (p : Payment) : Prop where
  getAmountToSendByEpoch : s'.getAmountToSendByEpoch = s.getAmountToSendByEpoch
  amount : p.amount = s.getAmountToSendByEpoch p.epoch p.gauge
  amount_ne : p.amount ≠ 0
  fresh : s.getAmountSentByEpoch p.epoch p.gauge = 0
  getAmountSentByEpoch : s'.getAmountSentByEpoch = update s.getAmountSentByEpoch p.epoch
    (update (s.getAmountSentByEpoch p.epoch) p.gauge p.amount)
  payments : s'.payments = p :: s.payments

/-- `StashRewardDistro` got the amount of a gauge and has it for the two coming weeks of its
pool, but for what the division leaves and a wei for each of them. -/
structure Funded (s s' : ChildGaugeVoteRewards) (p : Payment) : Prop where
  isSet : (s.getPoolId p.gauge).isSet = true
  balance : (s'.tokens s.aura).balanceOf =
    move (s.tokens s.aura).balanceOf s.self s.stashRewardDistro.self p.amount
  getFunds : ∀ e pid token, s'.stashRewardDistro.getFunds e pid token =
    s.stashRewardDistro.getFunds e pid token +
      if token = s.aura ∧ pid = (s.getPoolId p.gauge).value ∧
          s.now / StashRewardDistro.epochDuration < e ∧
          e ≤ s.now / StashRewardDistro.epochDuration + 2 then (p.amount - 2) / 2
      else 0

variable {s s' : ChildGaugeVoteRewards} {sender gauge : Address} {epoch : ℕ}

theorem Same.refl (s : ChildGaugeVoteRewards) : Same s s :=
  ⟨rfl, rfl, rfl⟩

theorem Elsewhere.same (h : Elsewhere s s') : Same s s' := by
  obtain ⟨_, _, _, _, -, rfl⟩ := h
  exact ⟨rfl, rfl, rfl⟩

theorem setPoolIds_same {i j : ℕ} (h : s.setPoolIds i j = .ok s') : Same s s' := by
  refine foldlM_keeps (P := Same s) (fun k _ s₁ s₂ hs hx => ?_) (.refl s) h
  obtain ⟨gauge, -, hx⟩ := bind_eq_ok.1 hx
  cases hx
  exact ⟨hs.1, hs.2, hs.3⟩

theorem getAmountToSend_eq_ok {r : ChildGaugeVoteRewards × ℕ}
    (h : s._getAmountToSend epoch gauge = .ok r) :
    s.getAmountToSendByEpoch epoch gauge ≠ 0 ∧ s.getAmountSentByEpoch epoch gauge = 0 ∧
      r.2 = s.getAmountToSendByEpoch epoch gauge ∧ r.1 = { s with
        getAmountSentByEpoch := update s.getAmountSentByEpoch epoch
          (update (s.getAmountSentByEpoch epoch) gauge
            (s.getAmountToSendByEpoch epoch gauge)) } := by
  unfold _getAmountToSend at h
  obtain ⟨hsend, h⟩ := require_bind_eq_ok.1 h
  obtain ⟨hsent, h⟩ := require_bind_eq_ok.1 h
  cases h
  exact ⟨hsend, hsent, rfl, rfl⟩

theorem processGauge_eq_ok (h : processGauge epoch s gauge = .ok s') :
    Forwarded s s' ⟨epoch, gauge, s.getAmountToSendByEpoch epoch gauge⟩ ∧
      Funded s s' ⟨epoch, gauge, s.getAmountToSendByEpoch epoch gauge⟩ := by
  unfold processGauge at h
  obtain ⟨⟨s₁, n⟩, h₁, h⟩ := bind_eq_ok.1 h
  obtain ⟨hset, h⟩ := require_bind_eq_ok.1 h
  obtain ⟨f, hf, h⟩ := bind_eq_ok.1 h
  cases h
  obtain ⟨hsend, hsent, hn, hs₁⟩ := getAmountToSend_eq_ok h₁
  dsimp only at hn hs₁ hset hf
  subst hn hs₁
  exact ⟨⟨rfl, rfl, hsend, hsent, rfl, rfl⟩, hset, (StashRewardDistro.fundPool_eq_ok hf).2.2.1,
    StashRewardDistro.fundPool_getFunds hf⟩

/-- What an amount needs to be handed out. -/
theorem processGauge_of (hsend : s.getAmountToSendByEpoch epoch gauge ≠ 0)
    (hsent : s.getAmountSentByEpoch epoch gauge = 0) (hpool : (s.getPoolId gauge).isSet = true)
    {f : StashRewardDistro × (Address → Erc20 Address)}
    (hf : s.stashRewardDistro.fundPool s.now s.tokens s.self (s.getPoolId gauge).value s.aura
      (s.getAmountToSendByEpoch epoch gauge) 2 = .ok f) :
    ∃ s', processGauge epoch s gauge = .ok s' := by
  unfold processGauge _getAmountToSend
  dsimp only
  rw [require_of hsend, ok_bind, require_of hsent, ok_bind, ok_bind, require_of hpool, ok_bind,
    hf]
  exact ⟨_, rfl⟩

/-- A property of the amounts that a payment keeps is kept by every call. -/
theorem exec_keeps {P : ChildGaugeVoteRewards → Prop}
    (same : ∀ s s', P s → Same s s' → P s') (forwarded : ∀ s s' p, P s → Forwarded s s' p → P s')
    {c : Call} (hs : P s) (h : s.exec sender c = .ok s') : P s' := by
  cases c with
  | setDistributor _ =>
    obtain ⟨-, -, h⟩ := bind_eq_ok.1 h
    cases h
    exact same _ _ hs ⟨rfl, rfl, rfl⟩
  | setPoolIds i j => exact same _ _ hs (setPoolIds_same h)
  | processGaugeRewards e gs =>
    obtain ⟨-, -, h⟩ := bind_eq_ok.1 h
    exact foldlM_keeps (P := P)
      (fun g _ s₁ s₂ hs hx => forwarded _ _ _ hs (processGauge_eq_ok hx).1) hs h
  | transferERC20 _ _ _ =>
    obtain ⟨-, -, h⟩ := bind_eq_ok.1 h
    obtain ⟨t, -, h⟩ := bind_eq_ok.1 h
    cases h
    exact same _ _ hs ⟨rfl, rfl, rfl⟩

end ChildGaugeVoteRewards

end Aura.Gauges
