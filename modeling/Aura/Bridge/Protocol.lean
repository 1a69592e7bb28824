import Aura.Bridge.ProxyOft

/-!
# Bridge : runs

A bridge is a proxy on the canonical chain, a token on every other chain and the messages
between them. A message that was sent is delivered once, in any order. Its receipt
succeeds or fails, by a revert or for lack of gas; a failed message is stored and can be
retried until it succeeds.

`outstanding` is what the bridge owes outside of the proxy : the supplies of the tokens and
the amounts in flight, failed and queued. `Flow` says once what a step can do to it and to
the heir, and `Reachable.induct` is the rule for invariants of the two.
-/

open Evm Function Finset

namespace Aura.Bridge

variable {σ : Type}

structure Network (σ : Type) where
  proxy : ProxyOft σ
  /-- The token of every chain but that of the proxy. -/
  ofts : ChainId → Oft
  /-- Sent, and neither received nor failed. -/
  inFlight : List Message
  /-- Failed, and not retried with success. -/
  failed : List Message

/-- A call of a contract of the bridge, or the delivery of a message. -/
inductive Call (Own : Type) where
  | sendFrom (_from : Address) (_dstChainId : ChainId) (_toAddress : Bytes) (_amount : ℕ)
  | processQueued (t : Transfer)
  | pause
  | unpause
  | setQueueDelay (_delay : ℕ)
  | setInflowLimit (_limit : ℕ)
  | own (c : Own)
  | oftSendFrom (chain : ChainId) (_from : Address) (_dstChainId : ChainId) (_toAddress : Bytes)
      (_amount : ℕ)
  | oftLock (chain : ChainId) (_receiver : Address) (_cvxAmount : ℕ)
  | oftPause (chain : ChainId)
  | oftUnpause (chain : ChainId)
  | lzReceive (m : Message)
  | lzReceiveOutOfGas (m : Message)
  | retryMessage (m : Message)

/-- The amounts of some messages. -/
def carried (ms : List Message) : ℕ :=
  (ms.map fun m => m.payload.amount).sum

/-- The amounts of some transfers. -/
def waiting (ts : List Transfer) : ℕ :=
  (ts.map Transfer.amount).sum

namespace Network

/-- What the bridge owes outside of the proxy. -/
def outstanding (b : Network σ) : ℕ :=
  ∑ c, (b.ofts c).token.totalSupply + carried b.inFlight + carried b.failed +
    waiting b.proxy.queued

/-- Another token on `chain`. -/
def setOft (b : Network σ) (chain : ChainId) (o : Oft) : Network σ :=
  { b with ofts := update b.ofts chain o }

/-- Another guard of the token on `chain`. -/
def setOftGuard (b : Network σ) (chain : ChainId) (g : Tx PauseGuardian) : Tx (Network σ) := do
  let guard ← g
  .ok (b.setOft chain { b.ofts chain with guard })

/-- Messages are sent. -/
def send (b : Network σ) (ms : List Message) : Network σ :=
  { b with inFlight := ms ++ b.inFlight }

/-- Whether the receiver of a message trusts its sender. -/
def trusts (b : Network σ) (m : Message) : Bool :=
  if m.dstChainId = b.proxy.chain then b.proxy.trustedRemoteLookup m.srcChainId
  else (b.ofts m.dstChainId).trustedRemoteLookup m.srcChainId

/-! ## Moving what is outstanding -/

@[simp] theorem carried_cons (m : Message) (ms : List Message) :
    carried (m :: ms) = m.payload.amount + carried ms := by
  simp [carried]

@[simp] theorem carried_append (ms ms' : List Message) :
    carried (ms ++ ms') = carried ms + carried ms' := by
  simp [carried]

theorem carried_erase {m : Message} {ms : List Message} (h : m ∈ ms) :
    carried (ms.erase m) + m.payload.amount = carried ms :=
  (Nat.add_comm _ _).trans (List.sum_map_erase (fun m => m.payload.amount) h)

@[simp] theorem waiting_cons (t : Transfer) (ts : List Transfer) :
    waiting (t :: ts) = t.amount + waiting ts := by
  simp [waiting]

theorem waiting_erase {t : Transfer} {ts : List Transfer} (h : t ∈ ts) :
    waiting (ts.erase t) + t.amount = waiting ts :=
  (Nat.add_comm _ _).trans (List.sum_map_erase Transfer.amount h)

/-- The supply of one token changes. -/
theorem outstanding_setOft (b : Network σ) (c : ChainId) (o : Oft) :
    (b.setOft c o).outstanding + (b.ofts c).token.totalSupply =
      b.outstanding + o.token.totalSupply := by
  have hsum := sum_update_map (fun o : Oft => o.token.totalSupply) b.ofts c o
  unfold outstanding setOft
  dsimp only at hsum ⊢
  omega

theorem outstanding_send (b : Network σ) (ms : List Message) :
    (b.send ms).outstanding = b.outstanding + carried ms := by
  unfold outstanding send
  dsimp only
  rw [carried_append]
  omega

/-- The proxy changes. -/
theorem outstanding_proxy (b : Network σ) (p : ProxyOft σ) :
    { b with proxy := p }.outstanding + waiting b.proxy.queued =
      b.outstanding + waiting p.queued := by
  unfold outstanding
  dsimp only
  omega

theorem outstanding_received (b : Network σ) {m : Message} (h : m ∈ b.inFlight) :
    { b with inFlight := b.inFlight.erase m }.outstanding + m.payload.amount = b.outstanding := by
  have := carried_erase h
  unfold outstanding
  dsimp only
  omega

theorem outstanding_retried (b : Network σ) {m : Message} (h : m ∈ b.failed) :
    { b with failed := b.failed.erase m }.outstanding + m.payload.amount = b.outstanding := by
  have := carried_erase h
  unfold outstanding
  dsimp only
  omega

theorem outstanding_failed (b : Network σ) {m : Message} (h : m ∈ b.inFlight) :
    { b with inFlight := b.inFlight.erase m, failed := m :: b.failed }.outstanding =
      b.outstanding := by
  have := carried_erase h
  unfold outstanding
  dsimp only
  rw [carried_cons]
  omega

theorem amount_le_outstanding {b : Network σ} {m : Message} (h : m ∈ b.inFlight ++ b.failed) :
    m.payload.amount ≤ b.outstanding := by
  have hle : m.payload.amount ≤ carried (b.inFlight ++ b.failed) :=
    List.le_sum_of_mem (List.mem_map_of_mem h)
  rw [carried_append] at hle
  unfold outstanding
  omega

theorem waiting_le_outstanding {b : Network σ} {t : Transfer} (h : t ∈ b.proxy.queued) :
    t.amount ≤ b.outstanding := by
  have hle : t.amount ≤ waiting b.proxy.queued := List.le_sum_of_mem (List.mem_map_of_mem h)
  unfold outstanding
  omega

/-! ## Delivery -/

variable [Heir σ]

/-- `_nonblockingLzReceive` of the receiver of a message. -/
def receive (b : Network σ) (m : Message) : Tx (Network σ) :=
  if m.dstChainId = b.proxy.chain then do
    let proxy ← b.proxy._nonblockingLzReceive m.srcChainId m.payload
    .ok { b with proxy }
  else do
    let o ← (b.ofts m.dstChainId)._nonblockingLzReceive m.payload
    .ok (b.setOft m.dstChainId o)

/-- `lzReceive` : a message that cannot be processed is stored. -/
def lzReceive (b : Network σ) (m : Message) : Tx (Network σ) := do
  require (m ∈ b.inFlight) "LayerZero: no such message"
  require (b.trusts m = true) "LzApp: invalid source sending contract"
  let b := { b with inFlight := b.inFlight.erase m }
  match b.receive m with
  | .ok b' => .ok b'
  | .error _ => .ok { b with failed := m :: b.failed }

/-- `lzReceive` with too little gas to process the message. -/
def lzReceiveOutOfGas (b : Network σ) (m : Message) : Tx (Network σ) := do
  require (m ∈ b.inFlight) "LayerZero: no such message"
  require (b.trusts m = true) "LzApp: invalid source sending contract"
  .ok { b with inFlight := b.inFlight.erase m, failed := m :: b.failed }

/-- `retryMessage`. -/
def retryMessage (b : Network σ) (m : Message) : Tx (Network σ) := do
  require (m ∈ b.failed) "NonblockingLzApp: no stored message"
  { b with failed := b.failed.erase m }.receive m

end Network

open Network

variable [Heir σ]

/-- A function of the proxy that sends no message. -/
def withProxy (b : Network σ) (p : Tx (ProxyOft σ)) : Tx (Network σ) := do
  let proxy ← p
  .ok { b with proxy }

/-- `sendFrom` of the proxy. -/
def execSendFrom (b : Network σ) (sender _from : Address) (_dstChainId : ChainId)
    (_toAddress : Bytes) (_amount : ℕ) : Tx (Network σ) := do
  let r ← b.proxy.sendFrom sender _from _dstChainId _toAddress _amount
  .ok ({ b with proxy := r.1 }.send [r.2])

/-- A function that the heir adds. -/
def execOwn (b : Network σ) (sender : Address) (c : Heir.Call σ) : Tx (Network σ) := do
  let r ← Heir.exec b.proxy sender c
  .ok ({ b with proxy := { b.proxy with heir := r.1 } }.send r.2)

/-- A function of the token on `chain` that sends a message. -/
def execOft (b : Network σ) (chain : ChainId) (x : Tx (Oft × Message)) : Tx (Network σ) := do
  require (chain ≠ b.proxy.chain) "no such contract"
  let r ← x
  .ok ((b.setOft chain r.1).send [r.2])

/-- Run a call of `sender`. Only tokens of a bridge with a locker have `lock`. -/
def exec (b : Network σ) (sender : Address) : Call (Heir.Call σ) → Tx (Network σ)
  | .sendFrom a c bs n => execSendFrom b sender a c bs n
  | .processQueued t => withProxy b (b.proxy.processQueued t)
  | .pause => withProxy b do
    let guard ← b.proxy.guard.pause sender
    .ok { b.proxy with guard }
  | .unpause => withProxy b do
    let guard ← b.proxy.guard.unpause sender
    .ok { b.proxy with guard }
  | .setQueueDelay d => withProxy b (b.proxy.setQueueDelay sender d)
  | .setInflowLimit n => withProxy b (b.proxy.setInflowLimit sender n)
  | .own c => execOwn b sender c
  | .oftSendFrom chain a c bs n => execOft b chain ((b.ofts chain).sendFrom chain sender a c bs n)
  | .oftLock chain a n => do
    require ((Heir.locker : Option (LockTarget σ)).isSome = true) "no such function"
    execOft b chain ((b.ofts chain).lock chain sender a n)
  | .oftPause chain => b.setOftGuard chain ((b.ofts chain).guard.pause sender)
  | .oftUnpause chain => b.setOftGuard chain ((b.ofts chain).guard.unpause sender)
  | .lzReceive m => b.lzReceive m
  | .lzReceiveOutOfGas m => b.lzReceiveOutOfGas m
  | .retryMessage m => b.retryMessage m

/-- What happens around the bridge : something on the canonical chain, and on the others
transfers of their tokens, which leave the supplies. -/
structure Elsewhere (b b' : Network σ) : Prop where
  heir : Heir.Elsewhere b.proxy.heir b'.proxy.heir
  proxy : b'.proxy = { b.proxy with heir := b'.proxy.heir }
  ofts : ∀ c, ∃ t, t.totalSupply = (b.ofts c).token.totalSupply ∧
    b'.ofts c = { b.ofts c with token := t }
  inFlight : b'.inFlight = b.inFlight
  failed : b'.failed = b.failed

/-- The contracts of the bridge were just deployed. -/
structure Deployed (b : Network σ) : Prop where
  heir : Heir.Deployed b.proxy.heir
  queue : ∀ t, b.proxy.queue t = false
  queued : b.proxy.queued = []
  ofts : ∀ c, (b.ofts c).token.totalSupply = 0
  inFlight : b.inFlight = []
  failed : b.failed = []

/-- `b` is reached from a deployment. -/
inductive Reachable : Network σ → Prop
  | deployed {b : Network σ} : Deployed b → Reachable b
  | elsewhere {b b' : Network σ} : Reachable b → Elsewhere b b' → Reachable b'
  | call {b b' : Network σ} {sender : Address} {c : Call (Heir.Call σ)} :
      Reachable b → exec b sender c = .ok b' → Reachable b'

/-! ## What a step does -/

/-- What a step can do to the heir and to what is outstanding. -/
inductive Flow (s s' : σ) (n n' : ℕ) : Prop
  | same : s' = s → n' = n → Flow s s' n n'
  | debited (sender src : Address) (k : ℕ) (r : σ × ℕ) :
      Heir._debitFrom s sender src k = .ok r → s' = r.1 → n' = n + r.2 → Flow s s' n n'
  | credited (dst : Address) (k : ℕ) (r : σ × ℕ) :
      Heir._creditTo s dst k = .ok r → s' = r.1 → n = n' + k → Flow s s' n n'
  | locked (locker : LockTarget σ) (a : Address) (k : ℕ) :
      Heir.locker = some locker → locker.lock s a k = .ok s' → n = n' + k → Flow s s' n n'
  | own (p : ProxyOft σ) (sender : Address) (c : Heir.Call σ) (r : σ × List Message) :
      p.heir = s → Heir.exec p sender c = .ok r → s' = r.1 → n' = n + carried r.2 →
        Flow s s' n n'
  | elsewhere : Heir.Elsewhere s s' → n' = n → Flow s s' n n'

/-- The outcome of processing a message : the receiver releases what it carries. -/
theorem receive_flow {b b' : Network σ} {m : Message} (h : b.receive m = .ok b')
    (hq : b.proxy.Queueing) :
    b'.proxy.Queueing ∧ Flow b.proxy.heir b'.proxy.heir
      (b.outstanding + m.payload.amount) b'.outstanding := by
  unfold receive at h
  split_ifs at h with hc
  · obtain ⟨p, hp, h⟩ := bind_eq_ok.1 h
    cases h
    have hr := ProxyOft.nonblockingLzReceive_eq_ok hp
    have hout := outstanding_proxy b p
    refine ⟨hr.queueing hq, ?_⟩
    cases hr with
    | credited dst r hx hs _ hl =>
      rw [hl] at hout
      exact .credited dst _ r hx hs (by omega)
    | locked locker a hx hlock _ hl =>
      rw [hl] at hout
      exact .locked locker a _ hx hlock (by omega)
    | queued t hn hs _ hl =>
      rw [hl, waiting_cons, hn] at hout
      exact .same hs (by omega)
  · obtain ⟨o, ho, h⟩ := bind_eq_ok.1 h
    cases h
    have hmint := Oft.nonblockingLzReceive_eq_ok ho
    have hout := outstanding_setOft b m.dstChainId o
    exact ⟨hq, .same rfl (by omega)⟩

theorem lzReceive_flow {b b' : Network σ} {m : Message} (h : b.lzReceive m = .ok b')
    (hq : b.proxy.Queueing) :
    b'.proxy.Queueing ∧ Flow b.proxy.heir b'.proxy.heir b.outstanding b'.outstanding := by
  unfold lzReceive at h
  obtain ⟨hm, h⟩ := require_bind_eq_ok.1 h
  obtain ⟨-, h⟩ := require_bind_eq_ok.1 h
  dsimp only at h
  split at h
  · next b₁ hr =>
    cases h
    have := receive_flow hr hq
    rwa [outstanding_received b hm] at this
  · cases h
    exact ⟨hq, .same rfl (outstanding_failed b hm)⟩

theorem retryMessage_flow {b b' : Network σ} {m : Message} (h : b.retryMessage m = .ok b')
    (hq : b.proxy.Queueing) :
    b'.proxy.Queueing ∧ Flow b.proxy.heir b'.proxy.heir b.outstanding b'.outstanding := by
  unfold retryMessage at h
  obtain ⟨hm, h⟩ := require_bind_eq_ok.1 h
  have := receive_flow h hq
  rwa [outstanding_retried b hm] at this

theorem sendFrom_flow {b b' : Network σ} {sender src : Address} {dst : ChainId} {bs : Bytes}
    {n : ℕ} (h : execSendFrom b sender src dst bs n = .ok b') (hq : b.proxy.Queueing) :
    b'.proxy.Queueing ∧ Flow b.proxy.heir b'.proxy.heir b.outstanding b'.outstanding := by
  unfold execSendFrom at h
  obtain ⟨⟨p, m⟩, hp, h⟩ := bind_eq_ok.1 h
  cases h
  obtain ⟨r, hr, hs, hqueue, hl, hm⟩ := ProxyOft.sendFrom_eq_ok hp
  have hout := outstanding_proxy b p
  rw [hl] at hout
  refine ⟨hq.of_eq hqueue hl, .debited sender src n r hr hs ?_⟩
  rw [outstanding_send, carried_cons, hm, Nat.add_right_cancel hout]
  rfl

theorem processQueued_flow {b b' : Network σ} {t : Transfer}
    (h : withProxy b (b.proxy.processQueued t) = .ok b') (hq : b.proxy.Queueing) :
    b'.proxy.Queueing ∧ Flow b.proxy.heir b'.proxy.heir b.outstanding b'.outstanding := by
  unfold withProxy at h
  obtain ⟨p, hp, h⟩ := bind_eq_ok.1 h
  cases h
  obtain ⟨ht, r, hr, hs, hqueue, hl⟩ := ProxyOft.processQueued_eq_ok hp
  have hw := waiting_erase (hq t ht)
  have hout := outstanding_proxy b p
  rw [hl] at hout
  exact ⟨hq.dequeue hqueue hl, .credited t.recipient t.amount r hr hs (by omega)⟩

theorem own_flow {b b' : Network σ} {sender : Address} {c : Heir.Call σ}
    (h : execOwn b sender c = .ok b') (hq : b.proxy.Queueing) :
    b'.proxy.Queueing ∧ Flow b.proxy.heir b'.proxy.heir b.outstanding b'.outstanding := by
  unfold execOwn at h
  obtain ⟨r, hr, h⟩ := bind_eq_ok.1 h
  cases h
  refine ⟨hq, .own b.proxy sender c r rfl hr rfl ?_⟩
  rw [outstanding_send]
  exact congrArg (· + carried r.2)
    (Nat.add_right_cancel (outstanding_proxy b { b.proxy with heir := r.1 }))

/-- What the tokens of the other chains send was burnt. -/
theorem oft_flow {b b' : Network σ} {chain : ChainId} {x : Tx (Oft × Message)}
    (h : execOft b chain x = .ok b') (hq : b.proxy.Queueing)
    (hx : ∀ r, x = .ok r →
      r.1.token.totalSupply + r.2.payload.amount = (b.ofts chain).token.totalSupply) :
    b'.proxy.Queueing ∧ Flow b.proxy.heir b'.proxy.heir b.outstanding b'.outstanding := by
  unfold execOft at h
  obtain ⟨-, h⟩ := require_bind_eq_ok.1 h
  obtain ⟨r, hr, h⟩ := bind_eq_ok.1 h
  cases h
  have hburn := hx r hr
  have hout := outstanding_setOft b chain r.1
  refine ⟨hq, .same rfl ?_⟩
  rw [outstanding_send, carried_cons]
  show _ + (_ + 0) = _
  omega

/-- Pausing a token moves nothing. -/
theorem setOftGuard_flow {b b' : Network σ} {chain : ChainId} {g : Tx PauseGuardian}
    (h : b.setOftGuard chain g = .ok b') (hq : b.proxy.Queueing) :
    b'.proxy.Queueing ∧ Flow b.proxy.heir b'.proxy.heir b.outstanding b'.outstanding := by
  unfold setOftGuard at h
  obtain ⟨guard, -, h⟩ := bind_eq_ok.1 h
  cases h
  exact ⟨hq, .same rfl (Nat.add_right_cancel (outstanding_setOft b chain _))⟩

/-- A setting of the proxy moves nothing. -/
theorem withProxy_flow {b b' : Network σ} {x : Tx (ProxyOft σ)} (h : withProxy b x = .ok b')
    (hq : b.proxy.Queueing)
    (hx : ∀ p, x = .ok p → p.heir = b.proxy.heir ∧ p.queue = b.proxy.queue ∧
      p.queued = b.proxy.queued) :
    b'.proxy.Queueing ∧ Flow b.proxy.heir b'.proxy.heir b.outstanding b'.outstanding := by
  unfold withProxy at h
  obtain ⟨p, hp, h⟩ := bind_eq_ok.1 h
  cases h
  obtain ⟨hs, hqueue, hl⟩ := hx p hp
  have hout := outstanding_proxy b p
  rw [hl] at hout
  exact ⟨hq.of_eq hqueue hl, .same hs (Nat.add_right_cancel hout)⟩

/-- What a call does. -/
theorem exec_flow {b b' : Network σ} {sender : Address} {c : Call (Heir.Call σ)}
    (h : exec b sender c = .ok b') (hq : b.proxy.Queueing) :
    b'.proxy.Queueing ∧ Flow b.proxy.heir b'.proxy.heir b.outstanding b'.outstanding := by
  cases c with
  | sendFrom _ _ _ _ => exact sendFrom_flow h hq
  | processQueued _ => exact processQueued_flow h hq
  | pause =>
    refine withProxy_flow h hq fun p hp => ?_
    obtain ⟨_, -, hp⟩ := bind_eq_ok.1 hp
    cases hp
    exact ⟨rfl, rfl, rfl⟩
  | unpause =>
    refine withProxy_flow h hq fun p hp => ?_
    obtain ⟨_, -, hp⟩ := bind_eq_ok.1 hp
    cases hp
    exact ⟨rfl, rfl, rfl⟩
  | setQueueDelay _ =>
    refine withProxy_flow h hq fun p hp => ?_
    obtain ⟨-, -, hp⟩ := bind_eq_ok.1 hp
    cases hp
    exact ⟨rfl, rfl, rfl⟩
  | setInflowLimit _ =>
    refine withProxy_flow h hq fun p hp => ?_
    obtain ⟨-, -, hp⟩ := bind_eq_ok.1 hp
    cases hp
    exact ⟨rfl, rfl, rfl⟩
  | own _ => exact own_flow h hq
  | oftSendFrom _ _ _ _ _ => exact oft_flow h hq fun r hr => (Oft.sendFrom_eq_ok hr).2
  | oftLock _ _ _ => exact oft_flow (require_bind_eq_ok.1 h).2 hq fun r hr => Oft.lock_eq_ok hr
  | oftPause _ => exact setOftGuard_flow h hq
  | oftUnpause _ => exact setOftGuard_flow h hq
  | lzReceive _ => exact lzReceive_flow h hq
  | lzReceiveOutOfGas m =>
    obtain ⟨hm, h⟩ := require_bind_eq_ok.1 h
    obtain ⟨-, h⟩ := require_bind_eq_ok.1 h
    cases h
    exact ⟨hq, .same rfl (outstanding_failed b hm)⟩
  | retryMessage _ => exact retryMessage_flow h hq

theorem Elsewhere.flow {b b' : Network σ} (h : Elsewhere b b') (hq : b.proxy.Queueing) :
    b'.proxy.Queueing ∧ Flow b.proxy.heir b'.proxy.heir b.outstanding b'.outstanding := by
  have hsum : ∑ c, (b'.ofts c).token.totalSupply = ∑ c, (b.ofts c).token.totalSupply := by
    refine sum_congr rfl fun c _ => ?_
    obtain ⟨t, ht, hc⟩ := h.ofts c
    rw [hc, ← ht]
  refine ⟨hq.of_eq ?_ ?_, .elsewhere h.heir ?_⟩
  · rw [h.proxy]
  · rw [h.proxy]
  · unfold outstanding
    rw [hsum, h.inFlight, h.failed, h.proxy]

theorem Deployed.queueing {b : Network σ} (h : Deployed b) : b.proxy.Queueing := by
  intro t ht
  rw [h.queue] at ht
  cases ht

theorem Deployed.outstanding_eq {b : Network σ} (h : Deployed b) : b.outstanding = 0 := by
  unfold outstanding
  rw [h.queued, h.inFlight, h.failed, sum_congr rfl fun c _ => h.ofts c]
  simp [carried, waiting]

theorem Reachable.queueing {b : Network σ} (h : Reachable b) : b.proxy.Queueing := by
  induction h with
  | deployed h => exact h.queueing
  | elsewhere _ he ih => exact (he.flow ih).1
  | call _ hx ih => exact (exec_flow hx ih).1

/-- What a deployment has and every flow keeps holds of the heir and what is outstanding. -/
theorem Reachable.induct {P : σ → ℕ → Prop} (deployed : ∀ s, Heir.Deployed s → P s 0)
    (flow : ∀ s s' n n', P s n → Flow s s' n n' → P s' n') {b : Network σ} (h : Reachable b) :
    P b.proxy.heir b.outstanding := by
  induction h with
  | deployed h =>
    rw [h.outstanding_eq]
    exact deployed _ h.heir
  | elsewhere hr he ih => exact flow _ _ _ _ ih (he.flow hr.queueing).2
  | call hr hx ih => exact flow _ _ _ _ ih (exec_flow hx hr.queueing).2

/-! ## Computed runs -/

/-- A bridge just deployed : the guardian is the account 400, the owner 401, and all chains
trust each other. -/
def Network.initial (chain : ChainId) (heir : σ) (inflowLimit : ℕ) : Network σ where
  proxy :=
    { chain, heir, inflowLimit
      guard := ⟨400, false⟩
      owner := 401
      queueDelay := 86400 * 7
      outflow := fun _ => 0
      inflow := fun _ => 0
      queue := fun _ => false
      queued := []
      trustedRemoteLookup := fun _ => true }
  ofts _ := ⟨Erc20.empty, ⟨400, false⟩, chain, fun _ => true⟩
  inFlight := []
  failed := []

theorem Network.initial_deployed {chain : ChainId} {s : σ} {n : ℕ} (h : Heir.Deployed s) :
    Deployed (Network.initial chain s n) :=
  ⟨h, fun _ => rfl, rfl, fun _ => rfl, rfl, rfl⟩

/-- Some calls with their senders, one after the other. -/
def play : Network σ → List (Address × Call (Heir.Call σ)) → Tx (Network σ)
  | b, [] => .ok b
  | b, e :: log => exec b e.1 e.2 >>= (play · log)

/-- The network after some calls. -/
def Network.after (b : Network σ) (log : List (Address × Call (Heir.Call σ))) : Network σ :=
  match play b log with
  | .ok b' => b'
  | .error _ => b

theorem Reachable.play {b b' : Network σ} {log : List (Address × Call (Heir.Call σ))}
    (h : Reachable b) (hp : Bridge.play b log = .ok b') : Reachable b' := by
  induction log generalizing b with
  | nil =>
    cases hp
    exact h
  | cons e log ih =>
    obtain ⟨b₁, hx, hp⟩ := bind_eq_ok.1 hp
    exact ih (h.call hx) hp

theorem Reachable.after {b : Network σ} {log : List (Address × Call (Heir.Call σ))}
    (h : Reachable b) (hr : (Bridge.play b log).returns = true) : Reachable (b.after log) := by
  obtain ⟨b', hb⟩ := Tx.exists_ok hr
  rw [Network.after, hb]
  exact h.play hb

end Aura.Bridge
