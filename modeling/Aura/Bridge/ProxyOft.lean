import Aura.Bridge.Oft

/-!
# Bridge : PausableProxyOFT

`PausableProxyOFT` : the end of a bridge on the canonical chain. It takes tokens in, sends
messages, and releases tokens on messages, at once or after a delay.

What its heirs `AuraProxyOFT` and `AuraBalProxyOFT` override is the class `Heir` over the
type `σ` of their own state, which includes the tokens.

The key of the queue is the tuple that the contract hashes. The mapping does not say which
transfers were queued, the events `QueuedFromChain` do : `queued` lists those that have not
been processed.
-/

open Evm Function

namespace Aura.Bridge

/-- Duration of each inflow epoch. -/
def epochDuration : ℕ := 86400 * 7

/-- The arguments of `QueuedFromChain` and of `processQueued`. -/
structure Transfer where
  epoch : ℕ
  srcChainId : ChainId
  recipient : Address
  amount : ℕ
  timestamp : ℕ
  deriving DecidableEq

structure ProxyOft (σ : Type) where
  /-- The chain it is on. -/
  chain : ChainId
  /-- What the heir adds. -/
  heir : σ
  guard : PauseGuardian
  owner : Address
  /-- Transfer inflow limit per epoch. -/
  inflowLimit : ℕ
  queueDelay : ℕ
  outflow : ℕ → ℕ
  inflow : ℕ → ℕ
  queue : Transfer → Bool
  queued : List Transfer
  /-- The chains with a trusted remote. -/
  trustedRemoteLookup : ChainId → Bool

/-- The locker that takes lock requests. -/
structure LockTarget (σ : Type) where
  isShutdown : σ → Bool
  lock : σ → Address → ℕ → Tx σ

/-- What an heir of `PausableProxyOFT` supplies. -/
class Heir (σ : Type) where
  /-- `block.timestamp`. -/
  now : σ → ℕ
  /-- `address(this)`. -/
  self : σ → Address
  /-- `_debitFrom(_from, …, _amount)` on a call of `sender` : the new state, and the amount
  of the message. -/
  _debitFrom : σ → (sender _from : Address) → (_amount : ℕ) → Tx (σ × ℕ)
  /-- `_creditTo(…, _toAddress, _amount)` : the new state and what the recipient got. -/
  _creditTo : σ → (_toAddress : Address) → (_amount : ℕ) → Tx (σ × ℕ)
  /-- An heir without a locker knows no custom messages. -/
  locker : Option (LockTarget σ)
  /-- The functions that the heir adds. -/
  Call : Type
  /-- A call of `sender` : the new state and the messages sent. -/
  exec : ProxyOft σ → (sender : Address) → Call → Tx (σ × List Message)
  /-- What may happen around the heir that is no call of it. -/
  Elsewhere : σ → σ → Prop
  /-- The heir was just deployed. -/
  Deployed : σ → Prop

variable {σ : Type}

/-! ## ProxyOFT -/

/-- `ProxyOFT._debitFrom` of the contract `self`. -/
def ProxyOft._debitFrom (innerToken : Erc20 Address) (self sender _from : Address)
    (_amount : ℕ) : Tx (Erc20 Address × ℕ) := do
  require (_from = sender) "ProxyOFT: owner is not send caller"
  let t ← innerToken.transferFrom self _from self _amount
  let amount ← usub (t.balanceOf self) (innerToken.balanceOf self)
  .ok (t, amount)

/-- `ProxyOFT._creditTo` of the contract `self`. -/
def ProxyOft._creditTo (innerToken : Erc20 Address) (self _toAddress : Address) (_amount : ℕ) :
    Tx (Erc20 Address × ℕ) := do
  let t ← innerToken.transfer self _toAddress _amount
  let amount ← usub (t.balanceOf _toAddress) (innerToken.balanceOf _toAddress)
  .ok (t, amount)

/-- A debit counts what arrives. -/
theorem ProxyOft.debitFrom_eq_ok {t : Erc20 Address} {self sender src : Address} {n : ℕ}
    {r : Erc20 Address × ℕ} (h : ProxyOft._debitFrom t self sender src n = .ok r) :
    r.1.balanceOf self = t.balanceOf self + r.2 := by
  unfold ProxyOft._debitFrom at h
  obtain ⟨-, h⟩ := require_bind_eq_ok.1 h
  obtain ⟨t', -, h⟩ := bind_eq_ok.1 h
  obtain ⟨k, hk, h⟩ := bind_eq_ok.1 h
  obtain ⟨hle, rfl⟩ := usub_eq_ok.1 hk
  cases h
  exact (Nat.add_sub_of_le hle).symm

/-- A credit moves the amount, and counts it unless it goes to the contract itself. -/
theorem ProxyOft.creditTo_eq_ok {t : Erc20 Address} {self dst : Address} {n : ℕ}
    {r : Erc20 Address × ℕ} (h : ProxyOft._creditTo t self dst n = .ok r) :
    r.1.balanceOf = move t.balanceOf self dst n ∧ r.2 = if dst = self then 0 else n := by
  unfold ProxyOft._creditTo at h
  obtain ⟨t', ht, h⟩ := bind_eq_ok.1 h
  obtain ⟨k, hk, h⟩ := bind_eq_ok.1 h
  obtain ⟨-, rfl⟩ := usub_eq_ok.1 hk
  cases h
  obtain ⟨-, -, hn, hb, -, -⟩ := Erc20.transfer_eq_ok ht
  refine ⟨hb, ?_⟩
  dsimp only
  rw [hb]
  split_ifs with hd
  · rw [hd, move_self t.balanceOf self hn, Nat.sub_self]
  · rw [move_dst t.balanceOf n (Ne.symm hd), Nat.add_sub_cancel_left]

/-! ## PausableProxyOFT -/

/-- `_getNetInflow`. -/
def _getNetInflow (_inflow _outflow : ℕ) : ℕ :=
  if _outflow < _inflow then _inflow - _outflow else 0

namespace ProxyOft

def onlyOwner (p : ProxyOft σ) (sender : Address) : Tx Unit :=
  require (p.owner = sender) "Ownable: caller is not the owner"

def setQueueDelay (p : ProxyOft σ) (sender : Address) (_delay : ℕ) : Tx (ProxyOft σ) := do
  p.onlyOwner sender
  .ok { p with queueDelay := _delay }

def setInflowLimit (p : ProxyOft σ) (sender : Address) (_limit : ℕ) : Tx (ProxyOft σ) := do
  p.onlyOwner sender
  .ok { p with inflowLimit := _limit }

variable [Heir σ]

/-- `block.timestamp`. -/
def now (p : ProxyOft σ) : ℕ :=
  Heir.now p.heir

/-- `_getCurrentEpoch`. -/
def _getCurrentEpoch (p : ProxyOft σ) : ℕ :=
  p.now / epochDuration

/-- `sendFrom` : the message carries what `_debitFrom` returns. -/
def sendFrom (p : ProxyOft σ) (sender _from : Address) (_dstChainId : ChainId)
    (_toAddress : Bytes) (_amount : ℕ) : Tx (ProxyOft σ × Message) := do
  p.guard.whenNotPaused
  let outflow ← uadd 256 (p.outflow p._getCurrentEpoch) _amount
  let r ← Heir._debitFrom p.heir sender _from _amount
  requireTrusted p.trustedRemoteLookup _dstChainId
  .ok ({ p with outflow := update p.outflow p._getCurrentEpoch outflow, heir := r.1 },
    ⟨p.chain, _dstChainId, .send _toAddress r.2⟩)

/-- `queue[…] = true; emit QueuedFromChain(…)`. -/
def enqueue (p : ProxyOft σ) (t : Transfer) : ProxyOft σ :=
  { p with queue := update p.queue t true, queued := t :: p.queued }

/-- `_safeCreditTo`. -/
def _safeCreditTo (p : ProxyOft σ) (_srcChainId : ChainId) (_to : Address) (_amount : ℕ) :
    Tx (ProxyOft σ) := do
  let epoch := p._getCurrentEpoch
  let newInflow ← AuraMath.add (p.inflow epoch) _amount
  let p := { p with inflow := update p.inflow epoch newInflow }
  if p.inflowLimit < _getNetInflow newInflow (p.outflow epoch) ∨ p.guard.paused = true then
    .ok (p.enqueue ⟨epoch, _srcChainId, _to, _amount, p.now⟩)
  else do
    let r ← Heir._creditTo p.heir _to _amount
    .ok { p with heir := r.1 }

/-- `_sendAck`. -/
def _sendAck (p : ProxyOft σ) (_srcChainId : ChainId) (toAddressBytes : Bytes) (amount : ℕ) :
    Tx (ProxyOft σ) := do
  let dst ← toAddress toAddressBytes
  p._safeCreditTo _srcChainId dst amount

/-- `_lockFor` : the credit is the fallback while nothing can be locked. -/
def _lockFor (p : ProxyOft σ) (locker : LockTarget σ) (_srcChainId : ChainId)
    (_sender : Address) (_amount : ℕ) : Tx (ProxyOft σ) :=
  if locker.isShutdown p.heir = true ∨ p.guard.paused = true then
    p._safeCreditTo _srcChainId _sender _amount
  else do
    let s ← locker.lock p.heir _sender _amount
    .ok { p with heir := s }

/-- `_nonblockingLzReceive`. -/
def _nonblockingLzReceive (p : ProxyOft σ) (_srcChainId : ChainId) : Payload → Tx (ProxyOft σ)
  | .send toAddressBytes amount => p._sendAck _srcChainId toAddressBytes amount
  | .lock sender amount =>
    match (Heir.locker : Option (LockTarget σ)) with
    | some locker => p._lockFor locker _srcChainId sender amount
    -- read as a plain transfer, the payload does not decode
    | none => .error (.reason "")

/-- `processQueued`. -/
def processQueued (p : ProxyOft σ) (t : Transfer) : Tx (ProxyOft σ) := do
  p.guard.whenNotPaused
  require (p.queue t = true) "!root"
  let due ← AuraMath.add t.timestamp p.queueDelay
  require (due < p.now) "!timestamp"
  let p := { p with queue := update p.queue t false, queued := p.queued.erase t }
  let r ← Heir._creditTo p.heir t.recipient t.amount
  .ok { p with heir := r.1 }

/-! ## What the functions do -/

/-- What a message or the processing of a transfer does with the amount `n` : the heir
releases it, locks it, or it is queued. -/
inductive Released (p p' : ProxyOft σ) (n : ℕ) : Prop
  | credited (dst : Address) (r : σ × ℕ) :
      Heir._creditTo p.heir dst n = .ok r → p'.heir = r.1 → p'.queue = p.queue →
        p'.queued = p.queued → Released p p' n
  | locked (locker : LockTarget σ) (a : Address) :
      Heir.locker = some locker → locker.lock p.heir a n = .ok p'.heir → p'.queue = p.queue →
        p'.queued = p.queued → Released p p' n
  | queued (t : Transfer) : t.amount = n → p'.heir = p.heir →
      p'.queue = update p.queue t true → p'.queued = t :: p.queued → Released p p' n

variable {p p' : ProxyOft σ}

theorem sendFrom_eq_ok {sender src : Address} {dst : ChainId} {bs : Bytes} {n : ℕ} {m : Message}
    (h : p.sendFrom sender src dst bs n = .ok (p', m)) :
    ∃ r, Heir._debitFrom p.heir sender src n = .ok r ∧ p'.heir = r.1 ∧ p'.queue = p.queue ∧
      p'.queued = p.queued ∧ m.payload.amount = r.2 := by
  unfold sendFrom at h
  obtain ⟨-, -, h⟩ := bind_eq_ok.1 h
  obtain ⟨_, -, h⟩ := bind_eq_ok.1 h
  obtain ⟨r, hr, h⟩ := bind_eq_ok.1 h
  obtain ⟨-, -, h⟩ := bind_eq_ok.1 h
  cases h
  exact ⟨r, hr, rfl, rfl, rfl, rfl⟩

theorem safeCreditTo_eq_ok {src : ChainId} {dst : Address} {n : ℕ}
    (h : p._safeCreditTo src dst n = .ok p') : Released p p' n := by
  unfold _safeCreditTo at h
  obtain ⟨k, -, h⟩ := bind_eq_ok.1 h
  dsimp only at h
  split_ifs at h
  · cases h
    exact .queued _ rfl rfl rfl rfl
  · obtain ⟨r, hr, h⟩ := bind_eq_ok.1 h
    cases h
    exact .credited dst r hr rfl rfl rfl

theorem nonblockingLzReceive_eq_ok {src : ChainId} {payload : Payload}
    (h : p._nonblockingLzReceive src payload = .ok p') : Released p p' payload.amount := by
  cases payload with
  | send bs n =>
    unfold _nonblockingLzReceive _sendAck at h
    obtain ⟨dst, -, h⟩ := bind_eq_ok.1 h
    exact safeCreditTo_eq_ok h
  | lock a n =>
    unfold _nonblockingLzReceive at h
    dsimp only at h
    split at h
    · next locker hl =>
      unfold _lockFor at h
      split_ifs at h
      · exact safeCreditTo_eq_ok h
      · obtain ⟨s, hs, h⟩ := bind_eq_ok.1 h
        cases h
        exact .locked locker a hl hs rfl rfl
    · cases h

theorem processQueued_eq_ok {t : Transfer} (h : p.processQueued t = .ok p') :
    p.queue t = true ∧ ∃ r, Heir._creditTo p.heir t.recipient t.amount = .ok r ∧
      p'.heir = r.1 ∧ p'.queue = update p.queue t false ∧ p'.queued = p.queued.erase t := by
  unfold processQueued at h
  obtain ⟨_, -, h⟩ := bind_eq_ok.1 h
  obtain ⟨hq, h⟩ := require_bind_eq_ok.1 h
  obtain ⟨_, -, h⟩ := bind_eq_ok.1 h
  obtain ⟨-, h⟩ := require_bind_eq_ok.1 h
  obtain ⟨r, hr, h⟩ := bind_eq_ok.1 h
  cases h
  exact ⟨hq, r, hr, rfl, rfl, rfl⟩

/-! ## The queue -/

/-- Only what was queued and not yet processed is in the queue. -/
def Queueing (p : ProxyOft σ) : Prop :=
  ∀ t, p.queue t = true → t ∈ p.queued

omit [Heir σ] in
theorem Queueing.of_eq (h : p.Queueing) (hq : p'.queue = p.queue) (hl : p'.queued = p.queued) :
    p'.Queueing := by
  intro t ht
  rw [hl]
  exact h t (hq ▸ ht)

omit [Heir σ] in
theorem Queueing.enqueue {t : Transfer} (h : p.Queueing) (hq : p'.queue = update p.queue t true)
    (hl : p'.queued = t :: p.queued) : p'.Queueing := by
  intro u hu
  rw [hl]
  by_cases hut : u = t
  · exact hut ▸ List.mem_cons_self
  · rw [hq, update_of_ne hut] at hu
    exact List.mem_cons_of_mem _ (h u hu)

omit [Heir σ] in
theorem Queueing.dequeue {t : Transfer} (h : p.Queueing) (hq : p'.queue = update p.queue t false)
    (hl : p'.queued = p.queued.erase t) : p'.Queueing := by
  intro u hu
  have hut : u ≠ t := by
    rintro rfl
    simp [hq] at hu
  rw [hq, update_of_ne hut] at hu
  rw [hl]
  exact (List.mem_erase_of_ne hut).2 (h u hu)

theorem Released.queueing {n : ℕ} (h : p.Queueing) (hr : Released p p' n) : p'.Queueing := by
  cases hr with
  | credited _ _ _ _ hq hl => exact h.of_eq hq hl
  | locked _ _ _ _ hq hl => exact h.of_eq hq hl
  | queued _ _ _ hq hl => exact h.enqueue hq hl

end ProxyOft

end Aura.Bridge
