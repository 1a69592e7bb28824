import Aura.Bridge.ProxyOft

/-!
# Bridge : the record of a proxy

What a `PausableProxyOFT` did with the transfers it received, as a list of events, the
newest first. Messages may come from any chain with any payload and in any number in one
block ; those that fail, and are retried or not, leave no event.

`Logged` says once what a call can do to the limits and the queue, and what it records, and
`Told` what it does to the heir : an amount that is recorded as credited is one that the heir
credits, and while one is queued the heir stays as it is.
-/

open Evm Function

namespace Aura.Bridge

variable {σ : Type}

/-- What is recorded of a run. -/
inductive Event where
  /-- `_safeCreditTo` credited an amount in an epoch, while the bridge was `paused` or not. -/
  | received (epoch amount : ℕ) (paused : Bool)
  /-- `_safeCreditTo` queued a transfer. -/
  | queued (t : Transfer)
  /-- `processQueued` credited a transfer at a time, under a delay. -/
  | processed (t : Transfer) (timestamp queueDelay : ℕ) (paused : Bool)
  | setInflowLimit (_limit : ℕ)
  deriving DecidableEq

/-- A call of the proxy, or the receipt of a message. -/
inductive ProxyCall (Own : Type) where
  | sendFrom (_from : Address) (_dstChainId : ChainId) (_toAddress : Bytes) (_amount : ℕ)
  | lzReceive (_srcChainId : ChainId) (payload : Payload)
  | processQueued (t : Transfer)
  | pause
  | unpause
  | setQueueDelay (_delay : ℕ)
  | setInflowLimit (_limit : ℕ)
  | own (c : Own)

/-- The time of an heir never goes back. -/
class Forward (σ : Type) [Heir σ] : Prop where
  debitFrom {s : σ} {sender src : Address} {n : ℕ} {r : σ × ℕ} :
    Heir._debitFrom s sender src n = .ok r → Heir.now s ≤ Heir.now r.1
  creditTo {s : σ} {dst : Address} {n : ℕ} {r : σ × ℕ} :
    Heir._creditTo s dst n = .ok r → Heir.now s ≤ Heir.now r.1
  lock {s s' : σ} {locker : LockTarget σ} {a : Address} {n : ℕ} :
    Heir.locker = some locker → locker.lock s a n = .ok s' → Heir.now s ≤ Heir.now s'
  exec {p : ProxyOft σ} {sender : Address} {c : Heir.Call σ} {r : σ × List Message} :
    Heir.exec p sender c = .ok r → Heir.now p.heir ≤ Heir.now r.1
  elsewhere {s s' : σ} : Heir.Elsewhere s s' → Heir.now s ≤ Heir.now s'

namespace ProxyOft

variable [Heir σ]

/-- Run a call of `sender`. -/
def exec (p : ProxyOft σ) (sender : Address) : ProxyCall (Heir.Call σ) → Tx (ProxyOft σ)
  | .sendFrom a c bs n => do
    let r ← p.sendFrom sender a c bs n
    .ok r.1
  | .lzReceive c payload => p._nonblockingLzReceive c payload
  | .processQueued t => p.processQueued t
  | .pause => do
    let guard ← p.guard.pause sender
    .ok { p with guard }
  | .unpause => do
    let guard ← p.guard.unpause sender
    .ok { p with guard }
  | .setQueueDelay d => p.setQueueDelay sender d
  | .setInflowLimit n => p.setInflowLimit sender n
  | .own c => do
    let r ← Heir.exec p sender c
    .ok { p with heir := r.1 }

/-- The event of `_safeCreditTo`. -/
def recordCredit (p : ProxyOft σ) (_srcChainId : ChainId) (_to : Address) (_amount : ℕ) : Event :=
  let epoch := p._getCurrentEpoch
  if p.inflowLimit < _getNetInflow (p.inflow epoch + _amount) (p.outflow epoch) ∨
      p.guard.paused = true then
    .queued ⟨epoch, _srcChainId, _to, _amount, p.now⟩
  else .received epoch _amount p.guard.paused

/-- The events of the receipt of a message. -/
def recordReceipt (p : ProxyOft σ) (_srcChainId : ChainId) : Payload → List Event
  | .send toAddressBytes n =>
    match toAddress toAddressBytes with
    | .ok dst => [p.recordCredit _srcChainId dst n]
    | .error _ => []
  | .lock sender n =>
    match (Heir.locker : Option (LockTarget σ)) with
    | some locker =>
      if locker.isShutdown p.heir = true ∨ p.guard.paused = true then
        [p.recordCredit _srcChainId sender n]
      else []
    | none => []

/-- The events of a call that succeeds. -/
def record (p : ProxyOft σ) : ProxyCall (Heir.Call σ) → List Event
  | .lzReceive c payload => p.recordReceipt c payload
  | .processQueued t => [.processed t p.now p.queueDelay p.guard.paused]
  | .setInflowLimit n => [.setInflowLimit n]
  | _ => []

/-- What a call does to the limits and the queue, and what it records. -/
inductive Logged (p p' : ProxyOft σ) : List Event → Prop
  | quiet : p'.queue = p.queue → p'.inflow = p.inflow → (∀ e, p.outflow e ≤ p'.outflow e) →
      p'.inflowLimit = p.inflowLimit → p.now ≤ p'.now → Logged p p' []
  | limited (n : ℕ) : p'.inflowLimit = n → p'.queue = p.queue → p'.inflow = p.inflow →
      p'.outflow = p.outflow → p.now ≤ p'.now → Logged p p' [.setInflowLimit n]
  | received (n : ℕ) : p.guard.paused = false →
      p.inflow p._getCurrentEpoch + n ≤ p.outflow p._getCurrentEpoch + p.inflowLimit →
      p'.queue = p.queue →
      p'.inflow = update p.inflow p._getCurrentEpoch (p.inflow p._getCurrentEpoch + n) →
      p'.outflow = p.outflow → p'.inflowLimit = p.inflowLimit → p.now ≤ p'.now →
      Logged p p' [.received p._getCurrentEpoch n p.guard.paused]
  | queued (t : Transfer) : t.epoch = p._getCurrentEpoch → t.timestamp = p.now →
      p'.queue = update p.queue t true →
      p'.inflow = update p.inflow t.epoch (p.inflow t.epoch + t.amount) →
      p'.outflow = p.outflow → p'.inflowLimit = p.inflowLimit → p.now ≤ p'.now →
      Logged p p' [.queued t]
  | processed (t : Transfer) : p.guard.paused = false → p.queue t = true →
      t.timestamp + p.queueDelay < p.now → p'.queue = update p.queue t false →
      p'.inflow = p.inflow → p'.outflow = p.outflow → p'.inflowLimit = p.inflowLimit →
      p.now ≤ p'.now → Logged p p' [.processed t p.now p.queueDelay p.guard.paused]

/-- What a call of `sender` does to the heir, beside what it records. -/
inductive Told (p p' : ProxyOft σ) (sender : Address) :
    ProxyCall (Heir.Call σ) → List Event → Prop
  | received {src : ChainId} {payload : Payload} {dst : Address} {r : σ × ℕ} :
      payload.recipient = .ok dst → Heir._creditTo p.heir dst payload.amount = .ok r →
      p'.heir = r.1 → Told p p' sender (.lzReceive src payload)
        [.received p._getCurrentEpoch payload.amount p.guard.paused]
  | queued {src : ChainId} {payload : Payload} {dst : Address} :
      payload.recipient = .ok dst → p'.heir = p.heir → Told p p' sender (.lzReceive src payload)
        [.queued ⟨p._getCurrentEpoch, src, dst, payload.amount, p.now⟩]
  | locked {src : ChainId} {a : Address} {n : ℕ} {locker : LockTarget σ} :
      Heir.locker = some locker → locker.lock p.heir a n = .ok p'.heir →
      Told p p' sender (.lzReceive src (.lock a n)) []
  | processed {t : Transfer} {r : σ × ℕ} :
      Heir._creditTo p.heir t.recipient t.amount = .ok r → p'.heir = r.1 →
      Told p p' sender (.processQueued t) [.processed t p.now p.queueDelay p.guard.paused]
  | sent {src : Address} {dst : ChainId} {bs : Bytes} {n : ℕ} {r : σ × ℕ} :
      Heir._debitFrom p.heir sender src n = .ok r → p'.heir = r.1 →
      Told p p' sender (.sendFrom src dst bs n) []
  | own {c : Heir.Call σ} {r : σ × List Message} :
      Heir.exec p sender c = .ok r → p'.heir = r.1 → Told p p' sender (.own c) []
  | pause : p'.heir = p.heir → Told p p' sender .pause []
  | unpause : p'.heir = p.heir → Told p p' sender .unpause []
  | setQueueDelay {d : ℕ} : p'.heir = p.heir → Told p p' sender (.setQueueDelay d) []
  | setInflowLimit {n : ℕ} :
      p'.heir = p.heir → Told p p' sender (.setInflowLimit n) [.setInflowLimit n]

/-- A run : calls, and what happens around the proxy. -/
inductive Run (p₀ : ProxyOft σ) : List Event → ProxyOft σ → Prop
  | start : Run p₀ [] p₀
  | elsewhere {log : List Event} {p : ProxyOft σ} {s : σ} :
      Run p₀ log p → Heir.Elsewhere p.heir s → Run p₀ log { p with heir := s }
  | call {log : List Event} {p p' : ProxyOft σ} {sender : Address}
      {c : ProxyCall (Heir.Call σ)} :
      Run p₀ log p → p.exec sender c = .ok p' → Run p₀ (p.record c ++ log) p'

/-- The proxy was just deployed. -/
structure Fresh (p : ProxyOft σ) : Prop where
  queue : ∀ t, p.queue t = false
  inflow : ∀ e, p.inflow e = 0

/-! ## The calls -/

variable {p p' : ProxyOft σ}

omit [Heir σ] in
theorem netInflow_le {i o l : ℕ} (h : ¬l < _getNetInflow i o) : i ≤ o + l := by
  unfold _getNetInflow at h
  split_ifs at h <;> omega

/-- What `_safeCreditTo` does to the heir is what its event says. -/
theorem safeCreditTo_told {sender dst : Address} {src : ChainId} (payload : Payload)
    (hdst : payload.recipient = .ok dst) (h : p._safeCreditTo src dst payload.amount = .ok p') :
    Told p p' sender (.lzReceive src payload) [p.recordCredit src dst payload.amount] := by
  unfold _safeCreditTo at h
  obtain ⟨k, hk, h⟩ := bind_eq_ok.1 h
  obtain ⟨-, rfl⟩ := uadd_eq_ok.1 hk
  unfold recordCredit
  dsimp only at h ⊢
  split_ifs at h ⊢
  · cases h
    exact .queued hdst rfl
  · obtain ⟨r, hr, h⟩ := bind_eq_ok.1 h
    cases h
    exact .received hdst hr rfl

theorem lzReceive_told {sender : Address} {src : ChainId} {payload : Payload}
    (h : p._nonblockingLzReceive src payload = .ok p') :
    Told p p' sender (.lzReceive src payload) (p.recordReceipt src payload) := by
  cases payload with
  | send bs n =>
    obtain ⟨dst, hdst, h⟩ := bind_eq_ok.1 h
    unfold recordReceipt
    dsimp only
    rw [hdst]
    exact safeCreditTo_told (.send bs n) hdst h
  | lock a n =>
    unfold _nonblockingLzReceive at h
    unfold recordReceipt
    dsimp only at h ⊢
    cases hl : (Heir.locker : Option (LockTarget σ)) with
    | some locker =>
      rw [hl] at h
      dsimp only at h ⊢
      unfold _lockFor at h
      split_ifs at h ⊢
      · exact safeCreditTo_told (.lock a n) rfl h
      · obtain ⟨s, hs, h⟩ := bind_eq_ok.1 h
        cases h
        exact .locked hl hs
    | none =>
      rw [hl] at h
      cases h

/-- What a call does to the heir is what it records. -/
theorem exec_told {sender : Address} {c : ProxyCall (Heir.Call σ)}
    (h : p.exec sender c = .ok p') : Told p p' sender c (p.record c) := by
  cases c with
  | sendFrom src dst bs n =>
    obtain ⟨⟨q, m⟩, hr, h⟩ := bind_eq_ok.1 h
    cases h
    obtain ⟨r, hdebit, hheir, -⟩ := sendFrom_eq_ok hr
    exact .sent hdebit hheir
  | lzReceive src payload => exact lzReceive_told h
  | processQueued t =>
    obtain ⟨-, r, hr, hheir, -⟩ := processQueued_eq_ok h
    exact .processed hr hheir
  | pause =>
    obtain ⟨_, -, h⟩ := bind_eq_ok.1 h
    cases h
    exact .pause rfl
  | unpause =>
    obtain ⟨_, -, h⟩ := bind_eq_ok.1 h
    cases h
    exact .unpause rfl
  | setQueueDelay d =>
    obtain ⟨_, -, h⟩ := bind_eq_ok.1 h
    cases h
    exact .setQueueDelay rfl
  | setInflowLimit n =>
    obtain ⟨_, -, h⟩ := bind_eq_ok.1 h
    cases h
    exact .setInflowLimit rfl
  | own c =>
    obtain ⟨r, hr, h⟩ := bind_eq_ok.1 h
    cases h
    exact .own hr rfl

variable [Forward σ]

/-- `_safeCreditTo` does what its event says. -/
theorem safeCreditTo_logged {src : ChainId} {dst : Address} {n : ℕ}
    (h : p._safeCreditTo src dst n = .ok p') : Logged p p' [p.recordCredit src dst n] := by
  unfold _safeCreditTo at h
  obtain ⟨k, hk, h⟩ := bind_eq_ok.1 h
  obtain ⟨-, rfl⟩ := uadd_eq_ok.1 hk
  unfold recordCredit
  dsimp only at h ⊢
  split_ifs at h ⊢ with hc
  · cases h
    exact .queued _ rfl rfl rfl rfl rfl rfl le_rfl
  · obtain ⟨r, hr, h⟩ := bind_eq_ok.1 h
    cases h
    rw [not_or, Bool.not_eq_true] at hc
    exact .received n hc.2 (netInflow_le hc.1) rfl rfl rfl rfl (Forward.creditTo hr)

theorem lzReceive_logged {src : ChainId} {payload : Payload}
    (h : p._nonblockingLzReceive src payload = .ok p') :
    Logged p p' (p.recordReceipt src payload) := by
  cases payload with
  | send bs n =>
    obtain ⟨dst, hdst, h⟩ := bind_eq_ok.1 h
    unfold recordReceipt
    dsimp only
    rw [hdst]
    exact safeCreditTo_logged h
  | lock a n =>
    unfold _nonblockingLzReceive at h
    unfold recordReceipt
    dsimp only at h ⊢
    cases hl : (Heir.locker : Option (LockTarget σ)) with
    | some locker =>
      rw [hl] at h
      dsimp only at h ⊢
      unfold _lockFor at h
      split_ifs at h ⊢
      · exact safeCreditTo_logged h
      · obtain ⟨s, hs, h⟩ := bind_eq_ok.1 h
        cases h
        have hnow : Heir.now p.heir ≤ Heir.now s := Forward.lock hl hs
        exact .quiet rfl rfl (fun _ => le_rfl) rfl hnow
    | none =>
      rw [hl] at h
      cases h

theorem sendFrom_logged {sender src : Address} {dst : ChainId} {bs : Bytes} {n : ℕ}
    {r : ProxyOft σ × Message} (h : p.sendFrom sender src dst bs n = .ok r) :
    Logged p r.1 [] := by
  unfold sendFrom at h
  obtain ⟨-, -, h⟩ := bind_eq_ok.1 h
  obtain ⟨o, ho, h⟩ := bind_eq_ok.1 h
  obtain ⟨-, rfl⟩ := uadd_eq_ok.1 ho
  obtain ⟨q, hq, h⟩ := bind_eq_ok.1 h
  obtain ⟨-, -, h⟩ := bind_eq_ok.1 h
  cases h
  refine .quiet rfl rfl (fun e => ?_) rfl (Forward.debitFrom hq)
  dsimp only
  by_cases he : e = p._getCurrentEpoch
  · rw [he, update_self]
    exact Nat.le_add_right _ _
  · rw [update_of_ne he]

theorem processQueued_logged {t : Transfer} (h : p.processQueued t = .ok p') :
    Logged p p' [.processed t p.now p.queueDelay p.guard.paused] := by
  unfold processQueued at h
  obtain ⟨u, hpaused, h⟩ := bind_eq_ok.1 h
  obtain ⟨hq, h⟩ := require_bind_eq_ok.1 h
  obtain ⟨due, hdue, h⟩ := bind_eq_ok.1 h
  obtain ⟨-, rfl⟩ := uadd_eq_ok.1 hdue
  obtain ⟨hlt, h⟩ := require_bind_eq_ok.1 h
  obtain ⟨r, hr, h⟩ := bind_eq_ok.1 h
  cases h
  exact .processed t (require_eq_ok.1 hpaused) hq hlt rfl rfl rfl rfl (Forward.creditTo hr)

/-- What a call records is what it does. -/
theorem exec_logged {sender : Address} {c : ProxyCall (Heir.Call σ)}
    (h : p.exec sender c = .ok p') : Logged p p' (p.record c) := by
  cases c with
  | sendFrom _ _ _ _ =>
    obtain ⟨r, hr, h⟩ := bind_eq_ok.1 h
    cases h
    exact sendFrom_logged hr
  | lzReceive _ _ => exact lzReceive_logged h
  | processQueued _ => exact processQueued_logged h
  | pause =>
    obtain ⟨_, -, h⟩ := bind_eq_ok.1 h
    cases h
    exact .quiet rfl rfl (fun _ => le_rfl) rfl le_rfl
  | unpause =>
    obtain ⟨_, -, h⟩ := bind_eq_ok.1 h
    cases h
    exact .quiet rfl rfl (fun _ => le_rfl) rfl le_rfl
  | setQueueDelay _ =>
    obtain ⟨_, -, h⟩ := bind_eq_ok.1 h
    cases h
    exact .quiet rfl rfl (fun _ => le_rfl) rfl le_rfl
  | setInflowLimit n =>
    obtain ⟨_, -, h⟩ := bind_eq_ok.1 h
    cases h
    exact .limited n rfl rfl rfl rfl le_rfl
  | own _ =>
    obtain ⟨r, hr, h⟩ := bind_eq_ok.1 h
    cases h
    exact .quiet rfl rfl (fun _ => le_rfl) rfl (Forward.exec hr)

/-- What holds at the start and is kept by every step holds at the end of a run. -/
theorem Run.induct {P : List Event → ProxyOft σ → Prop} {p₀ : ProxyOft σ} (start : P [] p₀)
    (step : ∀ log es p p', P log p → Logged p p' es → P (es ++ log) p') {log : List Event}
    (h : Run p₀ log p) : P log p := by
  induction h with
  | start => exact start
  | elsewhere _ he ih =>
    exact step _ [] _ _ ih (.quiet rfl rfl (fun _ => le_rfl) rfl (Forward.elsewhere he))
  | call _ hx ih => exact step _ _ _ _ ih (exec_logged hx)

/-! ## Computed runs -/

/-- The record and the proxy after some more calls with their senders. -/
def play : ProxyOft σ → List Event → List (Address × ProxyCall (Heir.Call σ)) →
    Tx (List Event × ProxyOft σ)
  | p, log, [] => .ok (log, p)
  | p, log, e :: es => do
    let p' ← p.exec e.1 e.2
    p'.play (p.record e.2 ++ log) es

/-- The record and the proxy after some calls. -/
def after (p : ProxyOft σ) (es : List (Address × ProxyCall (Heir.Call σ))) :
    List Event × ProxyOft σ :=
  match p.play [] es with
  | .ok r => r
  | .error _ => ([], p)

omit [Forward σ] in
theorem Run.play {p₀ : ProxyOft σ} {es : List (Address × ProxyCall (Heir.Call σ))}
    {log : List Event} {r : List Event × ProxyOft σ} (h : Run p₀ log p)
    (hp : p.play log es = .ok r) : Run p₀ r.1 r.2 := by
  induction es generalizing p log with
  | nil =>
    cases hp
    exact h
  | cons e es ih =>
    obtain ⟨p', hx, hp⟩ := bind_eq_ok.1 hp
    exact ih (h.call hx) hp

omit [Forward σ] in
theorem Run.after {es : List (Address × ProxyCall (Heir.Call σ))}
    (hr : (p.play [] es).returns = true) : Run p (p.after es).1 (p.after es).2 := by
  obtain ⟨r, h⟩ := Tx.exists_ok hr
  unfold ProxyOft.after
  rw [h]
  exact Run.start.play h

end ProxyOft

end Aura.Bridge
