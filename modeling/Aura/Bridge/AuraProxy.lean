import Aura.Bridge.Protocol
import Aura.Locker.Reverts

/-!
# Bridge : the solvency of the AURA bridge

`AuraProxyOFT` holds the AURA that is on the other chains and locks some of it in
`AuraLocker` on request. Whatever calls, deliveries, failures and retries come in whatever
order, it holds at least what is outstanding, so that no credit and no lock fails for lack
of AURA (`aura_bridge_solvent`).
-/

open Evm Function

namespace Aura.Bridge

open Locker (exceedsBalance)

/-- `AuraProxyOFT`, with the world of the locker. -/
structure AuraProxy where
  /-- `address(this)`. -/
  self : Address
  world : Locker.World

namespace AuraProxy

/-- AURA, which the locker stakes. -/
def innerToken (s : AuraProxy) : Address :=
  s.world.locker.config.stakingToken

/-- The AURA that the proxy holds. -/
def balance (s : AuraProxy) : ℕ :=
  (s.world.tokens s.innerToken).balanceOf s.self

/-- Another ledger of AURA. -/
def withInnerToken (s : AuraProxy) (t : Erc20 Address) : AuraProxy :=
  { s with world := { s.world with tokens := update s.world.tokens s.innerToken t } }

/-- `ProxyOFT._debitFrom`. -/
def _debitFrom (s : AuraProxy) (sender _from : Address) (_amount : ℕ) : Tx (AuraProxy × ℕ) := do
  let r ← ProxyOft._debitFrom (s.world.tokens s.innerToken) s.self sender _from _amount
  .ok (s.withInnerToken r.1, r.2)

/-- `ProxyOFT._creditTo`. -/
def _creditTo (s : AuraProxy) (_toAddress : Address) (_amount : ℕ) : Tx (AuraProxy × ℕ) := do
  let r ← ProxyOft._creditTo (s.world.tokens s.innerToken) s.self _toAddress _amount
  .ok (s.withInnerToken r.1, r.2)

/-- `IAuraLocker(locker).lock(_sender, _amount)`. -/
def lock (s : AuraProxy) (_sender : Address) (_amount : ℕ) : Tx AuraProxy := do
  let world ← Locker.lock s.world s.self _sender _amount
  .ok { s with world }

/-- Time passes, others use the locker and move tokens. AURA is a standard ERC20 and the
proxy approves only the locker, which takes tokens from its caller alone : nobody else
lowers the balance. -/
structure Elsewhere (s s' : AuraProxy) : Prop where
  self : s'.self = s.self
  innerToken : s'.innerToken = s.innerToken
  now : s.world.now ≤ s'.world.now
  balance : s.balance ≤ s'.balance

instance : Heir AuraProxy where
  now s := s.world.now
  self s := s.self
  _debitFrom := AuraProxy._debitFrom
  _creditTo := AuraProxy._creditTo
  locker := some ⟨fun s => s.world.locker.config.isShutdown, AuraProxy.lock⟩
  Call := Empty
  exec _ _ c := c.elim
  Elsewhere := AuraProxy.Elsewhere
  Deployed _ := True

/-! ## What leaves the proxy -/

variable {s s' : AuraProxy} {r : AuraProxy × ℕ} {a dst : Address} {n : ℕ}

@[simp] theorem balance_withInnerToken (s : AuraProxy) (t : Erc20 Address) :
    (s.withInnerToken t).balance = t.balanceOf s.self := by
  simp [balance, withInnerToken, innerToken]

theorem debitFrom_balance {sender src : Address} (h : s._debitFrom sender src n = .ok r) :
    r.1.balance = s.balance + r.2 := by
  unfold _debitFrom at h
  obtain ⟨q, hq, h⟩ := bind_eq_ok.1 h
  cases h
  rw [balance_withInnerToken]
  exact ProxyOft.debitFrom_eq_ok hq

theorem creditTo_balance (h : s._creditTo dst n = .ok r) : s.balance ≤ r.1.balance + n := by
  unfold _creditTo at h
  obtain ⟨q, hq, h⟩ := bind_eq_ok.1 h
  cases h
  rw [balance_withInnerToken, (ProxyOft.creditTo_eq_ok hq).1]
  exact le_move_add (s.world.tokens s.innerToken).balanceOf s.self dst n s.self

theorem lock_balance (h : s.lock a n = .ok s') : s.balance ≤ s'.balance + n := by
  unfold lock at h
  obtain ⟨w, hw, h⟩ := bind_eq_ok.1 h
  cases h
  unfold Locker.lock at hw
  obtain ⟨s₀, h₀, hw⟩ := bind_eq_ok.1 hw
  obtain ⟨w₁, h₁, hw⟩ := bind_eq_ok.1 hw
  obtain ⟨s₁, h₂, hw⟩ := bind_eq_ok.1 hw
  cases hw
  obtain ⟨t, ht, h₁⟩ := bind_eq_ok.1 h₁
  cases h₁
  obtain ⟨-, -, hb, -⟩ := Erc20.transferFrom_eq_ok ht
  have htoken : s₁.config.stakingToken = s.innerToken := by
    rw [(Locker.lock_eq_ok h₂).config, (Locker.updateReward_accrued h₀).config]
    rfl
  have hstaking : s₀.config.stakingToken = s.innerToken := by
    rw [(Locker.updateReward_accrued h₀).config]
    rfl
  show _ ≤ (update s.world.tokens s₀.config.stakingToken t s₁.config.stakingToken).balanceOf
    s.self + n
  rw [htoken, hstaking, update_self, hb, hstaking]
  exact le_move_add (s.world.tokens s.innerToken).balanceOf s.self _ n s.self

/-- Whatever flows out of the proxy lowers what is outstanding at least as much. -/
theorem covered_flow {n n' : ℕ} (h : n ≤ s.balance) (hf : Flow s s' n n') : n' ≤ s'.balance := by
  cases hf with
  | same hs hn => rwa [hs, hn]
  | debited sender src k r hr hs hn =>
    have := debitFrom_balance hr
    rw [hs, hn]
    omega
  | credited dst k r hr hs hn =>
    have := creditTo_balance hr
    rw [hs]
    omega
  | locked locker a k hl hr hn =>
    obtain rfl := Option.some.inj hl
    have := lock_balance hr
    omega
  | own _ _ c => exact c.elim
  | elsewhere he hn => exact hn ▸ h.trans he.balance

/-! ## No lack of AURA -/

theorem creditTo_avoids (dst : Address) (hn : n ≤ s.balance) :
    Avoids exceedsBalance (s._creditTo dst n) := by
  unfold _creditTo ProxyOft._creditTo
  exact ((Locker.transfer_avoids _ _ _ hn).then fun _ => (avoids_usub _ _).then fun _ =>
    avoids_ok _).then fun _ => avoids_ok _

theorem safeCreditTo_avoids (p : ProxyOft AuraProxy) (src : ChainId) (dst : Address)
    (hn : n ≤ p.heir.balance) : Avoids exceedsBalance (p._safeCreditTo src dst n) := by
  unfold ProxyOft._safeCreditTo
  refine (avoids_uadd _ _ _).then fun _ => ?_
  dsimp only
  split_ifs
  · exact avoids_ok _
  · exact (creditTo_avoids dst hn).then fun _ => avoids_ok _

theorem nonblockingLzReceive_avoids (p : ProxyOft AuraProxy) (src : ChainId) (payload : Payload)
    (hn : payload.amount ≤ p.heir.balance) :
    Avoids exceedsBalance (p._nonblockingLzReceive src payload) := by
  cases payload with
  | send bs n =>
    refine Avoids.then ?_ fun dst => safeCreditTo_avoids p src dst hn
    unfold toAddress
    exact (avoids_require (by decide)).then fun _ => avoids_ok _
  | lock a n =>
    show Avoids _ (p._lockFor _ src a n)
    unfold ProxyOft._lockFor
    split_ifs
    · exact safeCreditTo_avoids p src a hn
    · refine Avoids.then ?_ fun _ => avoids_ok _
      exact (Locker.lock_avoids _ _ a hn).then fun _ => avoids_ok _

theorem processQueued_avoids (p : ProxyOft AuraProxy) (t : Transfer)
    (hn : p.queue t = true → t.amount ≤ p.heir.balance) :
    Avoids exceedsBalance (p.processQueued t) := by
  unfold ProxyOft.processQueued
  refine (avoids_require (by decide)).then fun _ => ?_
  refine (avoids_require (by decide)).bind fun u hu => ?_
  refine (avoids_uadd _ _ _).then fun _ => (avoids_require (by decide)).then fun _ => ?_
  exact (creditTo_avoids t.recipient (hn (require_eq_ok.1 hu))).then fun _ => avoids_ok _

end AuraProxy

/-- The proxy holds at least what is outstanding, and no message and no queued transfer
fails for lack of AURA. -/
theorem aura_bridge_solvent {b : Network AuraProxy} (h : Reachable b) :
    b.outstanding ≤ b.proxy.heir.balance ∧
      (∀ m ∈ b.inFlight ++ b.failed,
        Avoids exceedsBalance (b.proxy._nonblockingLzReceive m.srcChainId m.payload)) ∧
      ∀ t, Avoids exceedsBalance (b.proxy.processQueued t) := by
  have hle : b.outstanding ≤ b.proxy.heir.balance :=
    h.induct (P := fun s n => n ≤ s.balance) (fun _ _ => Nat.zero_le _)
      fun _ _ _ _ => AuraProxy.covered_flow
  refine ⟨hle, fun m hm => ?_, fun t => ?_⟩
  · exact AuraProxy.nonblockingLzReceive_avoids _ _ _ ((Network.amount_le_outstanding hm).trans hle)
  · exact AuraProxy.processQueued_avoids _ _ fun ht =>
      (Network.waiting_le_outstanding (h.queueing t ht)).trans hle

/-- The account 1 bridges 100 to the account 2, who locks 40 and sends 30 back, and the
messages wait for a full inflow or fail for lack of gas. -/
theorem aura_bridge_solvent_run : ∃ b : Network AuraProxy, b.outstanding ≤ b.proxy.heir.balance :=
  let start : Network AuraProxy := .initial 1 ⟨300, .initial 1⟩ 10
  let out : Message := ⟨1, 2, .send (encodePacked 2) 100⟩
  let lock : Message := ⟨2, 1, .lock 2 40⟩
  let back : Message := ⟨2, 1, .send (encodePacked 3) 30⟩
  let log : List (Address × Call Empty) :=
    [(1, .sendFrom 1 2 (encodePacked 2) 100), (9, .lzReceive out), (2, .oftLock 2 2 40),
      (2, .oftSendFrom 2 2 1 (encodePacked 3) 30), (9, .lzReceiveOutOfGas lock), (400, .pause),
      (9, .lzReceive back), (9, .retryMessage lock)]
  ⟨start.after log, (aura_bridge_solvent
    (.after (.deployed (Network.initial_deployed trivial)) (by decide +kernel))).1⟩

end Aura.Bridge
