import Aura.Evm.Run
import Aura.Mail
import Aura.Messages.LzApp

/-!
# Messages : NonblockingLzApp

`NonblockingLzApp.sol` : a message whose processing fails is stored by its hash, and anybody can
have it retried with the payload of that hash until it succeeds.

What an heir does with a message is a `Program` : it works on the storage of the heir, and the
contracts that it calls may come back with `retryMessage`, of this message or of another one,
at any point of it. `execute` runs it to a depth of calls.

Of the messages that were sent, every one is waiting, was executed once or is stored
(`Accounted`), and no execution changes that, although it may be entered again
(`Accounted.execute`). It rests on `retryMessage` clearing the stored message before it executes
it.
-/

open Evm Function

namespace Aura.Messages

open Bridge (Bytes ChainId encodePacked)

/-- A message on its way. -/
structure Packet where
  srcChainId : ChainId
  srcAddress : Bytes
  nonce : ℕ
  payload : Bytes
  deriving DecidableEq

/-- What identifies a message : the nonces of a path are used once. -/
abbrev Key := ChainId × Bytes × ℕ

def Packet.key (p : Packet) : Key :=
  (p.srcChainId, p.srcAddress, p.nonce)

/-- What an heir does with a message, on storage of type `σ`. -/
inductive Program (σ : Type) where
  | done
  | revert (e : Revert)
  | load (k : σ → Program σ)
  | store (s : σ) (k : Program σ)
  /-- A contract that is called calls `retryMessage`, and goes on when that reverts. -/
  | retryMessage (p : Packet) (k : Bool → Program σ)

/-- The storage of `NonblockingLzApp`, and that of its heir. `failedMessages[c][a][n]` is at
`(c, a, n)`. -/
structure NonblockingLzApp (D σ : Type) extends LzApp where
  failedMessages : Key → D
  heir : σ

variable {D σ : Type}

/-- A program, with what `retryMessage` does. -/
def Program.run (retryMessage : Packet → NonblockingLzApp D σ → Tx (NonblockingLzApp D σ)) :
    Program σ → NonblockingLzApp D σ → Tx (NonblockingLzApp D σ)
  | done, s => .ok s
  | revert e, _ => .error e
  | load k, s => (k s.heir).run retryMessage s
  | store h k, s => k.run retryMessage { s with heir := h }
  | .retryMessage p k, s =>
    match retryMessage p s with
    | .ok s' => (k true).run retryMessage s'
    | .error _ => (k false).run retryMessage s

namespace NonblockingLzApp

variable [DecidableEq D] [Zero D] (keccak256 : Bytes → D)

/-- `retryMessage`, with the `_nonblockingLzReceive` of the heir. -/
def retryMessage (_nonblockingLzReceive : Packet → NonblockingLzApp D σ → Tx (NonblockingLzApp D σ))
    (p : Packet) (s : NonblockingLzApp D σ) : Tx (NonblockingLzApp D σ) := do
  let payloadHash := s.failedMessages p.key
  require (payloadHash ≠ 0) "NonblockingLzApp: no stored message"
  require (keccak256 p.payload = payloadHash) "NonblockingLzApp: invalid payload"
  -- cleared before it is executed
  _nonblockingLzReceive p { s with failedMessages := update s.failedMessages p.key 0 }

/-- `_nonblockingLzReceive`, to a depth of calls. -/
def execute (heir : Packet → Program σ) :
    ℕ → Packet → NonblockingLzApp D σ → Tx (NonblockingLzApp D σ)
  | 0, _, _ => .error .outOfGas
  | depth + 1, p, s => (heir p).run (retryMessage keccak256 (execute heir depth)) s

variable (heir : Packet → Program σ) (depth : ℕ)

/-- `nonblockingLzReceive`. -/
def nonblockingLzReceive (s : NonblockingLzApp D σ) (sender : Address) (p : Packet) :
    Tx (NonblockingLzApp D σ) := do
  require (sender = s.self) "NonblockingLzApp: caller must be LzApp"
  execute keccak256 heir depth p s

/-- `_storeFailedMessage`. -/
def _storeFailedMessage (s : NonblockingLzApp D σ) (p : Packet) : NonblockingLzApp D σ :=
  { s with failedMessages := update s.failedMessages p.key (keccak256 p.payload) }

/-- `_blockingLzReceive` : the contract calls itself, and keeps what failed. -/
def _blockingLzReceive (s : NonblockingLzApp D σ) (p : Packet) : NonblockingLzApp D σ :=
  match nonblockingLzReceive keccak256 heir depth s s.self p with
  | .ok s' => s'
  | .error _ => s._storeFailedMessage keccak256 p

/-- `lzReceive`. -/
def lzReceive (s : NonblockingLzApp D σ) (sender : Address) (p : Packet) :
    Tx (NonblockingLzApp D σ) :=
  s.toLzApp.lzReceive keccak256 sender p.srcChainId p.srcAddress
    (.ok (s._blockingLzReceive keccak256 heir depth p))

end NonblockingLzApp

/-! ## Programs that log -/

/-- The same program, next to a log that it does not touch. -/
def Program.besideLog : Program σ → Program (σ × List Packet)
  | done => done
  | revert e => revert e
  | load k => load fun t => (k t.1).besideLog
  | store h k => load fun t => store (h, t.2) k.besideLog
  | .retryMessage p k => .retryMessage p fun b => (k b).besideLog

/-- An heir that logs what it processes. -/
def logged (heir : Packet → Program σ) (p : Packet) : Program (σ × List Packet) :=
  .load fun t => .store (t.1, t.2 ++ [p]) (heir p).besideLog

/-- The contract without the log. -/
def NonblockingLzApp.forget (s : NonblockingLzApp D (σ × List Packet)) : NonblockingLzApp D σ :=
  { s with heir := s.heir.1 }

section Forget

theorem besideLog_run {f : Packet → NonblockingLzApp D (σ × List Packet) →
      Tx (NonblockingLzApp D (σ × List Packet))}
    {g : Packet → NonblockingLzApp D σ → Tx (NonblockingLzApp D σ)}
    (h : ∀ p s, (f p s).map (·.forget) = g p s.forget) :
    ∀ (x : Program σ) (s), (x.besideLog.run f s).map (·.forget) = x.run g s.forget
  | .done, s => rfl
  | .revert e, s => rfl
  | .load k, s => besideLog_run h (k s.heir.1) s
  | .store h' k, s => besideLog_run h k { s with heir := (h', s.heir.2) }
  | .retryMessage p k, s => by
    have hp := h p s
    simp only [Program.besideLog, Program.run]
    cases hf : f p s with
    | ok s' =>
      rw [hf] at hp
      rw [← hp]
      exact besideLog_run h (k true) s'
    | error e =>
      rw [hf] at hp
      rw [← hp]
      exact besideLog_run h (k false) s

variable [DecidableEq D] [Zero D] {keccak256 : Bytes → D} {heir : Packet → Program σ}

/-- The log is a ghost : an heir that logs does what the heir does. -/
theorem execute_logged : ∀ (depth : ℕ) (p : Packet) (s : NonblockingLzApp D (σ × List Packet)),
    (NonblockingLzApp.execute keccak256 (logged heir) depth p s).map (·.forget) =
      NonblockingLzApp.execute keccak256 heir depth p s.forget
  | 0, _, _ => rfl
  | depth + 1, p, s => by
    refine besideLog_run (fun q s => ?_) (heir p) { s with heir := (s.heir.1, s.heir.2 ++ [p]) }
    unfold NonblockingLzApp.retryMessage
    dsimp only
    rw [Tx.map_bind]
    refine congrArg _ (funext fun _ => ?_)
    rw [Tx.map_bind]
    exact congrArg _ (funext fun _ => execute_logged depth q _)

end Forget

/-! ## Programs that are not entered again -/

/-- What an heir does that is not entered again. -/
def Program.ofTx (f : σ → Tx σ) : Program σ :=
  .load fun s =>
    match f s with
    | .ok s' => .store s' .done
    | .error e => .revert e

/-- An execution is one step of the heir. -/
theorem execute_ofTx [DecidableEq D] [Zero D] {keccak256 : Bytes → D} {f : Packet → σ → Tx σ}
    (depth : ℕ) (p : Packet) (s : NonblockingLzApp D (σ × List Packet)) :
    NonblockingLzApp.execute keccak256 (logged fun p => .ofTx (f p)) (depth + 1) p s =
      (f p s.heir.1).map fun g => { s with heir := (g, s.heir.2 ++ [p]) } := by
  simp only [NonblockingLzApp.execute, logged, Program.run, Program.ofTx, Program.besideLog]
  cases f p s.heir.1 <;> rfl

/-! ## Invariants of an execution -/

section Induct

variable {I : NonblockingLzApp D (σ × List Packet) → Prop}

/-- What the storage of the heir does not matter for, and the retries in a program keep. -/
theorem run_induct {f : Packet → NonblockingLzApp D (σ × List Packet) →
      Tx (NonblockingLzApp D (σ × List Packet))}
    (store : ∀ s g, I s → I { s with heir := (g, s.heir.2) })
    (hf : ∀ p s s', I s → f p s = .ok s' → I s') :
    ∀ (x : Program σ) {s s'}, I s → x.besideLog.run f s = .ok s' → I s'
  | .done, s, s', h, hx => by
    cases hx
    exact h
  | .revert e, _, _, _, hx => by cases hx
  | .load k, s, s', h, hx => run_induct store hf (k s.heir.1) h hx
  | .store g k, s, s', h, hx => by
    have hstored : I { s with heir := (g, s.heir.2) } := store s g h
    exact run_induct store hf k hstored hx
  | .retryMessage p k, s, s', h, hx => by
    simp only [Program.besideLog, Program.run] at hx
    cases hp : f p s with
    | ok s₁ =>
      rw [hp] at hx
      exact run_induct store hf (k true) (hf p s s₁ h hp) hx
    | error e =>
      rw [hp] at hx
      exact run_induct store hf (k false) h hx

variable [DecidableEq D] [Zero D] {keccak256 : Bytes → D} {heir : Packet → Program σ}
  {J : Packet → NonblockingLzApp D (σ × List Packet) → Prop}

/-- Executions lead from `J p` to `I` when logging `p` does, the storage of the heir does not
matter for `I`, and taking a stored message `p` leads from `I` to `J p`. -/
theorem execute_induct (store : ∀ s g, I s → I { s with heir := (g, s.heir.2) })
    (start : ∀ p s, J p s → I { s with heir := (s.heir.1, s.heir.2 ++ [p]) })
    (clear : ∀ p s, I s → s.failedMessages p.key ≠ 0 →
      keccak256 p.payload = s.failedMessages p.key →
      J p { s with failedMessages := update s.failedMessages p.key 0 }) :
    ∀ (depth : ℕ) (p : Packet) (s s'), J p s →
      NonblockingLzApp.execute keccak256 (logged heir) depth p s = .ok s' → I s'
  | 0, _, _, _, _, hx => by cases hx
  | depth + 1, p, s, s', h, hx => by
    refine run_induct store (fun q s s' hs hx => ?_) (heir p) (start p s h) hx
    obtain ⟨hne, hx⟩ := require_bind_eq_ok.1 hx
    obtain ⟨hhash, hx⟩ := require_bind_eq_ok.1 hx
    exact execute_induct store start clear depth q _ s' (clear q s hs hne hhash) hx

/-- The settings stay, and the log only grows. -/
theorem execute_frame {depth : ℕ} {p : Packet} {s s' : NonblockingLzApp D (σ × List Packet)}
    (hx : NonblockingLzApp.execute keccak256 (logged heir) depth p s = .ok s') :
    s'.toLzApp = s.toLzApp ∧ p ∈ s'.heir.2 := by
  refine execute_induct (I := fun r => r.toLzApp = s.toLzApp ∧ p ∈ r.heir.2)
    (J := fun q r => r.toLzApp = s.toLzApp ∧ (q = p ∨ p ∈ r.heir.2)) (fun _ _ h => h)
    (fun q r h => ⟨h.1, ?_⟩) (fun _ _ h _ _ => ⟨h.1, Or.inr h.2⟩) depth p s s'
    ⟨rfl, Or.inl rfl⟩ hx
  rcases h.2 with rfl | hmem
  · exact List.mem_append_right _ (List.mem_singleton_self q)
  · exact List.mem_append_left _ hmem

end Induct

/-! ## Accounting -/

section Accounting

variable [DecidableEq D] [Zero D] (keccak256 : Bytes → D)

/-- The message is stored. -/
def NonblockingLzApp.Stored (s : NonblockingLzApp D σ) (p : Packet) : Prop :=
  s.failedMessages p.key = keccak256 p.payload

instance (s : NonblockingLzApp D σ) (p : Packet) : Decidable (s.Stored keccak256 p) :=
  inferInstanceAs (Decidable (_ = _))

/-- Of the messages that were sent, `waiting` have not arrived. Every other one was executed once
or is stored, and nothing else is. -/
structure Accounted (sent waiting : List Packet) (s : NonblockingLzApp D (σ × List Packet)) :
    Prop where
  once : ∀ p ∈ sent, s.heir.2.count p + waiting.count p +
    (if s.Stored keccak256 p then 1 else 0) = 1
  executed_sent : ∀ p ∈ s.heir.2, p ∈ sent
  waiting_sent : ∀ p ∈ waiting, p ∈ sent
  stored_sent : ∀ key, s.failedMessages key ≠ 0 → ∃ p ∈ sent, p.key = key ∧ s.Stored keccak256 p

variable {keccak256} {sent waiting : List Packet} {s s' : NonblockingLzApp D (σ × List Packet)}
  {p : Packet}

/-- Only the log and the stored messages count. -/
theorem Accounted.of_eq (h : Accounted keccak256 sent waiting s) (hlog : s'.heir.2 = s.heir.2)
    (hfailed : s'.failedMessages = s.failedMessages) : Accounted keccak256 sent waiting s' where
  once q hq := by
    have hstored : s'.Stored keccak256 q ↔ s.Stored keccak256 q := by
      rw [NonblockingLzApp.Stored, hfailed]
      rfl
    simp only [hstored, hlog]
    exact h.once q hq
  executed_sent := by
    rw [hlog]
    exact h.executed_sent
  waiting_sent := h.waiting_sent
  stored_sent key hkey := by
    rw [hfailed] at hkey
    obtain ⟨q, hq, hqkey, hstored⟩ := h.stored_sent key hkey
    refine ⟨q, hq, hqkey, ?_⟩
    rw [NonblockingLzApp.Stored, hfailed]
    exact hstored

theorem Accounted.perm {waiting' : List Packet} (h : Accounted keccak256 sent waiting s)
    (hp : waiting'.Perm waiting) : Accounted keccak256 sent waiting' s where
  once q hq := by
    rw [hp.count_eq]
    exact h.once q hq
  executed_sent := h.executed_sent
  waiting_sent q hq := h.waiting_sent q (hp.mem_iff.1 hq)
  stored_sent := h.stored_sent

/-- A message that has not arrived is not stored. -/
theorem Accounted.not_stored (h : Accounted keccak256 sent (p :: waiting) s) :
    ¬s.Stored keccak256 p := by
  intro hstored
  have hone := h.once p (h.waiting_sent p (by simp))
  rw [List.count_cons_self, if_pos hstored] at hone
  omega

/-- A message is logged when its processing starts. -/
theorem Accounted.start (h : Accounted keccak256 sent (p :: waiting) s) :
    Accounted keccak256 sent waiting { s with heir := (s.heir.1, s.heir.2 ++ [p]) } where
  once q hq := by
    have hone := h.once q hq
    rw [List.count_cons] at hone
    show (s.heir.2 ++ [p]).count q + waiting.count q + (if s.Stored keccak256 q then 1 else 0) = 1
    rw [List.count_append, List.count_singleton]
    omega
  executed_sent q hq := by
    rcases List.mem_append.1 hq with hq | hq
    · exact h.executed_sent q hq
    · rw [List.mem_singleton.1 hq]
      exact h.waiting_sent p (by simp)
  waiting_sent q hq := h.waiting_sent q (List.mem_cons_of_mem p hq)
  stored_sent := h.stored_sent

variable (hK : CollisionFree keccak256) (hkeys : (sent.map Packet.key).Nodup)

include hkeys in
theorem eq_of_key {q : Packet} (hp : p ∈ sent) (hq : q ∈ sent) (h : p.key = q.key) : p = q :=
  List.inj_on_of_nodup_map hkeys hp hq h

include hK in
/-- What has the hash of a stored message is the message that was sent. -/
theorem Accounted.mem_of_hash (h : Accounted keccak256 sent waiting s)
    (hne : s.failedMessages p.key ≠ 0) (hhash : keccak256 p.payload = s.failedMessages p.key) :
    p ∈ sent := by
  obtain ⟨q, hq, hkey, hstored⟩ := h.stored_sent p.key hne
  obtain ⟨hchain, haddress, hnonce⟩ : q.srcChainId = p.srcChainId ∧
      q.srcAddress = p.srcAddress ∧ q.nonce = p.nonce := by
    simpa [Packet.key, Prod.ext_iff] using hkey
  have hpayload : q.payload = p.payload :=
    hK.inj (hstored.symm.trans ((congrArg _ hkey).trans hhash.symm))
  obtain rfl : q = p := by
    cases q
    cases p
    simp_all
  exact hq

include hK hkeys in
/-- A stored message is taken out of the store. -/
theorem Accounted.clear (h : Accounted keccak256 sent waiting s)
    (hne : s.failedMessages p.key ≠ 0) (hhash : keccak256 p.payload = s.failedMessages p.key) :
    Accounted keccak256 sent (p :: waiting)
      { s with failedMessages := update s.failedMessages p.key 0 } := by
  have hp : p ∈ sent := h.mem_of_hash hK hne hhash
  have hstored : s.Stored keccak256 p := hhash.symm
  refine ⟨fun r hr => ?_, h.executed_sent, fun r hr => ?_, fun key hkey => ?_⟩
  · have hone := h.once r hr
    rw [List.count_cons]
    by_cases hrq : r = p
    · subst hrq
      have hcleared : ¬NonblockingLzApp.Stored keccak256
          { s with failedMessages := update s.failedMessages r.key 0 } r := by
        rw [NonblockingLzApp.Stored]
        dsimp only
        rw [update_self]
        exact (hK.ne_zero _).symm
      rw [if_pos hstored] at hone
      rw [if_neg hcleared]
      simp only [beq_self_eq_true, if_true]
      omega
    · have hother : r.key ≠ p.key := fun heq => hrq (eq_of_key hkeys hr hp heq)
      have hsame : NonblockingLzApp.Stored keccak256
          { s with failedMessages := update s.failedMessages p.key 0 } r ↔
          s.Stored keccak256 r := by
        unfold NonblockingLzApp.Stored
        dsimp only
        rw [update_of_ne hother]
      have hbeq : (p == r) = false := by simpa using Ne.symm hrq
      simp only [hsame, hbeq]
      simpa using hone
  · rcases List.mem_cons.1 hr with rfl | hr
    · exact hp
    · exact h.waiting_sent r hr
  · dsimp only at hkey
    by_cases hk : key = p.key
    · rw [hk, update_self] at hkey
      exact absurd rfl hkey
    · rw [update_of_ne hk] at hkey
      obtain ⟨r, hr, hrkey, hrstored⟩ := h.stored_sent key hkey
      refine ⟨r, hr, hrkey, ?_⟩
      rw [NonblockingLzApp.Stored]
      dsimp only
      rw [update_of_ne (hrkey ▸ hk)]
      exact hrstored

include hkeys in
/-- A message that arrives is stored. -/
theorem Accounted.store (h : Accounted keccak256 sent (p :: waiting) s) :
    Accounted keccak256 sent waiting (s._storeFailedMessage keccak256 p) := by
  have hp : p ∈ sent := h.waiting_sent p (by simp)
  have hstored : (s._storeFailedMessage keccak256 p).Stored keccak256 p := by
    unfold NonblockingLzApp.Stored NonblockingLzApp._storeFailedMessage
    exact update_self _ _ _
  have hother : ∀ q ∈ sent, q ≠ p →
      ((s._storeFailedMessage keccak256 p).Stored keccak256 q ↔ s.Stored keccak256 q) := by
    intro q hq hne
    unfold NonblockingLzApp.Stored NonblockingLzApp._storeFailedMessage
    dsimp only
    rw [update_of_ne fun heq => hne (eq_of_key hkeys hq hp heq)]
  refine ⟨fun q hq => ?_, h.executed_sent, fun q hq => h.waiting_sent q (List.mem_cons_of_mem p hq),
    fun key hkey => ?_⟩
  · have hone := h.once q hq
    by_cases hqp : q = p
    · subst hqp
      rw [List.count_cons_self, if_neg h.not_stored] at hone
      rw [if_pos hstored]
      exact hone
    · have hbeq : (p == q) = false := by simpa using Ne.symm hqp
      rw [List.count_cons, hbeq] at hone
      simp only [hother q hq hqp]
      exact hone
  · by_cases hk : key = p.key
    · exact ⟨p, hp, hk.symm, hstored⟩
    · unfold NonblockingLzApp._storeFailedMessage at hkey
      dsimp only at hkey
      rw [update_of_ne hk] at hkey
      obtain ⟨q, hq, hqkey, hqstored⟩ := h.stored_sent key hkey
      exact ⟨q, hq, hqkey, (hother q hq fun heq => hk (by rw [← hqkey, heq])).2 hqstored⟩

include hK hkeys in
/-- A message that arrived is accounted for when its execution succeeds, whatever is retried in
the meantime. -/
theorem Accounted.execute {heir : Packet → Program σ} {depth : ℕ}
    (h : Accounted keccak256 sent (p :: waiting) s)
    (hx : NonblockingLzApp.execute keccak256 (logged heir) depth p s = .ok s') :
    Accounted keccak256 sent waiting s' :=
  execute_induct (fun _ _ h => h.of_eq rfl rfl) (fun _ _ h => h.start)
    (fun _ _ h hne hhash => h.clear hK hkeys hne hhash) depth p s s' h hx

end Accounting

end Aura.Messages
