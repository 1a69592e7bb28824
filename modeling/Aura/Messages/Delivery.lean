import Aura.Messages.NonblockingLzApp

/-!
# Messages : delivery

Runs of a `NonblockingLzApp` among the others : the endpoint brings messages that were sent, each
until it is taken, in any order and with any amount of gas; anybody calls `retryMessage` with
anything; the owner sets trusted remotes and drops messages that the contract refuses.

Messages are processed once (`exactly_once`), only those of trusted remotes are
(`executed_trusted`), a message is taken exactly if it comes on the path that was trusted last
(`receives_iff`), and it can be retried exactly while it is stored (`retryMessage_returns_iff`).
The owner and the endpoint stay the same. For an heir that is not entered again, a call is a
step of `Mail` (`delivery_refines_mail`), on which the models of the bridges and of the
coordinators are built.
-/

open Evm Function

namespace Aura.Messages

open Bridge (Bytes ChainId encodePacked)

variable {D σ : Type}

/-- The contract, with a log of what it executed, and its messages. -/
structure Delivery (D σ : Type) where
  app : NonblockingLzApp D (σ × List Packet)
  sent : List Packet
  inFlight : List Packet
  /-- Dropped by the owner. -/
  dropped : List Packet

namespace Delivery

inductive Call where
  | lzReceive (p : Packet) (depth : ℕ)
  | nonblockingLzReceive (p : Packet) (depth : ℕ)
  | retryMessage (p : Packet) (depth : ℕ)
  | forceResumeReceive (p : Packet)
  | setTrustedRemote (_srcChainId : ChainId) (_path : Bytes)
  | setTrustedRemoteAddress (_remoteChainId : ChainId) (_remoteAddress : Bytes)
  deriving DecidableEq

/-- What was executed, in order. -/
def executed (w : Delivery D σ) : List Packet :=
  w.app.heir.2

/-- Other storage of `LzApp`. -/
def withLzApp (w : Delivery D σ) (s : LzApp) : Delivery D σ :=
  { w with app := { w.app with toLzApp := s } }

variable [DecidableEq D] [Zero D] (keccak256 : Bytes → D) (heir : Packet → Program σ)

/-- What is stored. -/
def failed (w : Delivery D σ) : List Packet :=
  w.sent.filter fun p => w.app.Stored keccak256 p

/-- Run a call of `sender`. The endpoint brings only what was sent to the contract. -/
def exec (w : Delivery D σ) (sender : Address) : Call → Tx (Delivery D σ)
  | .lzReceive p depth => do
    require (sender = w.app.lzEndpoint → p ∈ w.inFlight) "LayerZero: no such message"
    let app ← w.app.lzReceive keccak256 (logged heir) depth sender p
    .ok { w with app, inFlight := w.inFlight.erase p }
  | .nonblockingLzReceive p depth => do
    let app ← w.app.nonblockingLzReceive keccak256 (logged heir) depth sender p
    .ok { w with app }
  | .retryMessage p depth => do
    let app ← w.app.retryMessage keccak256
      (NonblockingLzApp.execute keccak256 (logged heir) depth) p
    .ok { w with app }
  | .forceResumeReceive p => do
    w.app.onlyOwner sender
    require (p ∈ w.inFlight) "LayerZero: no stored payload"
    .ok { w with inFlight := w.inFlight.erase p, dropped := p :: w.dropped }
  | .setTrustedRemote _srcChainId _path => do
    let s ← w.app.setTrustedRemote sender _srcChainId _path
    .ok (w.withLzApp s)
  | .setTrustedRemoteAddress _remoteChainId _remoteAddress => do
    let s ← w.app.setTrustedRemoteAddress sender _remoteChainId _remoteAddress
    .ok (w.withLzApp s)

/-- What happens around the calls. -/
inductive Elsewhere : Delivery D σ → Delivery D σ → Prop
  /-- A message is sent, with a nonce of its own. -/
  | send {w : Delivery D σ} {p : Packet} (h : p.key ∉ w.sent.map Packet.key) :
      Elsewhere w { w with sent := p :: w.sent, inFlight := p :: w.inFlight }
  /-- Other functions of the heir. -/
  | heir {w : Delivery D σ} (s : σ) :
      Elsewhere w { w with app := { w.app with heir := (s, w.app.heir.2) } }

/-- The contract was just deployed. -/
structure Deployed (w : Delivery D σ) : Prop where
  failedMessages : w.app.failedMessages = fun _ => 0
  trustedRemoteLookup : w.app.trustedRemoteLookup = fun _ => []
  executed : w.executed = []
  sent : w.sent = []
  inFlight : w.inFlight = []
  dropped : w.dropped = []

/-- The contract is called by others than itself. Time does not matter. -/
def system : System (Delivery D σ) Address Call where
  now _ := 0
  IsCaller w sender := sender ≠ w.app.self
  exec := exec keccak256 heir
  Elsewhere := Elsewhere
  Deployed := Deployed

end Delivery

open Delivery

variable [DecidableEq D] [Zero D] {keccak256 : Bytes → D} {heir : Packet → Program σ}
  {w w' : Delivery D σ} {sender : Address} {log : List (Event Address Call)}

/-! ## What a call does -/

/-- A call that returns takes a message that the endpoint brings, retries a stored one, or is one
of the owner. -/
inductive Effect (keccak256 : Bytes → D) (heir : Packet → Program σ) (w : Delivery D σ)
    (sender : Address) : Call → Delivery D σ → Prop
  | lzReceive {p : Packet} {depth : ℕ} (h : p ∈ w.inFlight)
      (htrusted : p.srcAddress = w.app.trustedRemoteLookup p.srcChainId)
      (hne : p.srcAddress ≠ []) : Effect keccak256 heir w sender (.lzReceive p depth)
        { w with
          app := w.app._blockingLzReceive keccak256 (logged heir) depth p
          inFlight := w.inFlight.erase p }
  | retryMessage {p : Packet} {depth : ℕ} {app : NonblockingLzApp D (σ × List Packet)}
      (h : w.app.retryMessage keccak256
        (NonblockingLzApp.execute keccak256 (logged heir) depth) p = .ok app) :
      Effect keccak256 heir w sender (.retryMessage p depth) { w with app }
  | forceResumeReceive {p : Packet} (h : p ∈ w.inFlight) (howner : sender = w.app.owner) :
      Effect keccak256 heir w sender (.forceResumeReceive p)
        { w with inFlight := w.inFlight.erase p, dropped := p :: w.dropped }
  | setTrustedRemote {c : ChainId} {path : Bytes} (howner : sender = w.app.owner) :
      Effect keccak256 heir w sender (.setTrustedRemote c path)
        (w.withLzApp (w.app.trust c path))
  | setTrustedRemoteAddress {c : ChainId} {a : Bytes} (howner : sender = w.app.owner) :
      Effect keccak256 heir w sender (.setTrustedRemoteAddress c a)
        (w.withLzApp (w.app.trust c (a ++ encodePacked w.app.self)))

theorem effect_of_exec (hK : CollisionFree keccak256) {call : Call} (hsender : sender ≠ w.app.self)
    (h : exec keccak256 heir w sender call = .ok w') :
    Effect keccak256 heir w sender call w' := by
  cases call with
  | lzReceive p depth =>
    obtain ⟨hmem, h⟩ := require_bind_eq_ok.1 h
    obtain ⟨app, happ, h⟩ := bind_eq_ok.1 h
    obtain ⟨hendpoint, htrusted, hne, happ⟩ := (LzApp.lzReceive_eq_ok hK).1 happ
    cases happ
    cases h
    exact .lzReceive (hmem hendpoint) htrusted hne
  | nonblockingLzReceive p depth =>
    obtain ⟨app, happ, -⟩ := bind_eq_ok.1 h
    exact absurd (require_bind_eq_ok.1 happ).1 hsender
  | retryMessage p depth =>
    obtain ⟨app, happ, h⟩ := bind_eq_ok.1 h
    cases h
    exact .retryMessage happ
  | forceResumeReceive p =>
    obtain ⟨howner, h⟩ := require_bind_eq_ok.1 h
    obtain ⟨hmem, h⟩ := require_bind_eq_ok.1 h
    cases h
    exact .forceResumeReceive hmem howner
  | setTrustedRemote c path =>
    obtain ⟨s, hs, h⟩ := bind_eq_ok.1 h
    obtain ⟨howner, hs⟩ := require_bind_eq_ok.1 hs
    cases hs
    cases h
    exact .setTrustedRemote howner
  | setTrustedRemoteAddress c a =>
    obtain ⟨s, hs, h⟩ := bind_eq_ok.1 h
    obtain ⟨howner, hs⟩ := require_bind_eq_ok.1 hs
    cases hs
    cases h
    exact .setTrustedRemoteAddress howner

/-- Only the setters of trusted remotes change the storage of `LzApp`. -/
theorem Effect.toLzApp {call : Call} (h : Effect keccak256 heir w sender call w') :
    w'.app.toLzApp = match call with
      | .setTrustedRemote c path => w.app.trust c path
      | .setTrustedRemoteAddress c a => w.app.trust c (a ++ encodePacked w.app.self)
      | _ => w.app.toLzApp := by
  cases h with
  | @lzReceive p depth =>
    show (w.app._blockingLzReceive keccak256 (logged heir) depth p).toLzApp = w.app.toLzApp
    unfold NonblockingLzApp._blockingLzReceive NonblockingLzApp.nonblockingLzReceive
    rw [require_of rfl, ok_bind]
    cases hx : NonblockingLzApp.execute keccak256 (logged heir) depth p w.app with
    | ok app => exact (execute_frame hx).1
    | error e => rfl
  | retryMessage hx =>
    obtain ⟨-, hx⟩ := require_bind_eq_ok.1 hx
    obtain ⟨-, hx⟩ := require_bind_eq_ok.1 hx
    exact (execute_frame hx).1
  | forceResumeReceive | setTrustedRemote | setTrustedRemoteAddress => rfl

/-! ## Accounting over runs -/

/-- The nonces are used once, and every message that was sent is accounted for. -/
structure Inv (keccak256 : Bytes → D) (w : Delivery D σ) : Prop where
  keys : (w.sent.map Packet.key).Nodup
  accounted : Accounted keccak256 w.sent (w.inFlight ++ w.dropped) w.app

theorem Inv.deployed (h : Deployed w) : Inv keccak256 w where
  keys := by
    rw [h.sent]
    exact List.nodup_nil
  accounted := by
    have hlog : w.app.heir.2 = [] := h.executed
    refine ⟨fun p hp => ?_, fun p hp => ?_, fun p hp => ?_, fun key hkey => ?_⟩
    · rw [h.sent] at hp
      cases hp
    · rw [hlog] at hp
      cases hp
    · rw [h.inFlight, h.dropped] at hp
      cases hp
    · rw [h.failedMessages] at hkey
      exact absurd rfl hkey

/-- A message that is sent waits. -/
theorem Inv.send (hK : CollisionFree keccak256) (h : Inv keccak256 w) {p : Packet}
    (hp : p.key ∉ w.sent.map Packet.key) :
    Inv keccak256 { w with sent := p :: w.sent, inFlight := p :: w.inFlight } where
  keys := List.nodup_cons.2 ⟨hp, h.keys⟩
  accounted := by
    obtain ⟨honce, hexecuted, hwaiting, hstored⟩ := h.accounted
    have hnew : p ∉ w.sent := fun hmem => hp (List.mem_map_of_mem hmem)
    refine ⟨fun q hq => ?_, fun q hq => List.mem_cons_of_mem p (hexecuted q hq), fun q hq => ?_,
      fun key hkey => ?_⟩
    · show w.app.heir.2.count q + (p :: (w.inFlight ++ w.dropped)).count q +
        (if w.app.Stored keccak256 q then 1 else 0) = 1
      by_cases hqp : q = p
      · subst hqp
        have hno : ¬w.app.Stored keccak256 q := fun hst => by
          obtain ⟨r, hr, hkey, -⟩ := hstored q.key (hst ▸ hK.ne_zero _)
          exact hp (hkey ▸ List.mem_map_of_mem hr)
        rw [List.count_eq_zero_of_not_mem fun hmem => hnew (hexecuted q hmem), List.count_cons_self,
          List.count_eq_zero_of_not_mem fun hmem => hnew (hwaiting q hmem), if_neg hno]
      · rw [List.count_cons_of_ne (Ne.symm hqp)]
        exact honce q ((List.mem_cons.1 hq).resolve_left hqp)
    · rcases List.mem_cons.1 hq with rfl | hq
      · exact List.mem_cons_self
      · exact List.mem_cons_of_mem p (hwaiting q hq)
    · obtain ⟨q, hq, hqkey⟩ := hstored key hkey
      exact ⟨q, List.mem_cons_of_mem p hq, hqkey⟩

/-- What a call does keeps the account. -/
theorem Inv.effect (hK : CollisionFree keccak256) (h : Inv keccak256 w) {call : Call}
    (he : Effect keccak256 heir w sender call w') : Inv keccak256 w' := by
  obtain ⟨hkeys, hacc⟩ := h
  cases he with
  | @lzReceive p depth hmem htrusted hne =>
    have hperm : (p :: (w.inFlight.erase p ++ w.dropped)).Perm (w.inFlight ++ w.dropped) := by
      rw [← List.cons_append]
      exact (List.perm_cons_erase hmem).symm.append_right _
    have hwaiting := hacc.perm hperm
    refine ⟨hkeys, ?_⟩
    show Accounted keccak256 w.sent _ (w.app._blockingLzReceive keccak256 (logged heir) depth p)
    unfold NonblockingLzApp._blockingLzReceive NonblockingLzApp.nonblockingLzReceive
    rw [require_of rfl, ok_bind]
    cases hx : NonblockingLzApp.execute keccak256 (logged heir) depth p w.app with
    | ok app => exact hwaiting.execute hK hkeys hx
    | error e => exact hwaiting.store hkeys
  | retryMessage hx =>
    obtain ⟨hne, hx⟩ := require_bind_eq_ok.1 hx
    obtain ⟨hhash, hx⟩ := require_bind_eq_ok.1 hx
    exact ⟨hkeys, (hacc.clear hK hkeys hne hhash).execute hK hkeys hx⟩
  | @forceResumeReceive p hmem =>
    refine ⟨hkeys, hacc.perm ?_⟩
    exact (List.perm_middle).trans ((List.perm_cons_erase hmem).symm.append_right _)
  | setTrustedRemote => exact ⟨hkeys, hacc.of_eq rfl rfl⟩
  | setTrustedRemoteAddress => exact ⟨hkeys, hacc.of_eq rfl rfl⟩

theorem Inv.of_reachable (hK : CollisionFree keccak256)
    (h : (system keccak256 heir).Reachable log w) : Inv keccak256 w := by
  refine System.Reachable.induct (P := fun _ w => Inv keccak256 w) (fun _ => .deployed)
    (fun _ w w' hi he => ?_)
    (fun _ w w' sender c hi hc hx => hi.effect hK (effect_of_exec hK hc hx)) h
  cases he with
  | send hp => exact hi.send hK hp
  | heir s => exact ⟨hi.keys, hi.accounted.of_eq rfl rfl⟩

omit [Zero D] in
theorem mem_failed {p : Packet} :
    p ∈ w.failed keccak256 ↔ p ∈ w.sent ∧ w.app.Stored keccak256 p := by
  simp [failed]

/-- A message that was sent is in one of the lists. -/
theorem Inv.perm (h : Inv keccak256 w) :
    (w.executed ++ w.failed keccak256 ++ w.inFlight ++ w.dropped).Perm w.sent := by
  refine List.perm_iff_count.2 fun p => ?_
  have hnodup : w.sent.Nodup := h.keys.of_map
  rw [List.append_assoc, List.count_append, List.count_append]
  by_cases hp : p ∈ w.sent
  · have hone := h.accounted.once p hp
    have hsent : w.sent.count p = 1 := List.count_eq_one_of_mem hnodup hp
    have hfailed : (w.failed keccak256).count p = if w.app.Stored keccak256 p then 1 else 0 := by
      split_ifs with hst
      · rw [failed, List.count_filter (by simpa using hst), hsent]
      · exact List.count_eq_zero_of_not_mem fun hmem => hst (mem_failed.1 hmem).2
    rw [hsent, hfailed]
    unfold executed
    omega
  · have hexecuted : w.executed.count p = 0 :=
      List.count_eq_zero_of_not_mem fun hmem => hp (h.accounted.executed_sent p hmem)
    have hfailed : (w.failed keccak256).count p = 0 :=
      List.count_eq_zero_of_not_mem fun hmem => hp (mem_failed.1 hmem).1
    have hwaiting : (w.inFlight ++ w.dropped).count p = 0 :=
      List.count_eq_zero_of_not_mem fun hmem => hp (h.accounted.waiting_sent p hmem)
    rw [hexecuted, hfailed, hwaiting, List.count_eq_zero_of_not_mem hp]

/-- In every run, with an heir that may be entered again while it processes a message, every
message that was sent is in one place : it was executed once, or it is stored, or it is on its
way, or the owner dropped it. Nothing else was executed, and nothing else is stored. -/
theorem exactly_once (hK : CollisionFree keccak256)
    (h : (system keccak256 heir).Reachable log w) :
    w.sent.Nodup ∧
    (w.executed ++ w.failed keccak256 ++ w.inFlight ++ w.dropped).Perm w.sent ∧
    ∀ key, w.app.failedMessages key ≠ 0 ↔ ∃ p ∈ w.failed keccak256, p.key = key := by
  have hi := Inv.of_reachable hK h
  refine ⟨hi.keys.of_map, hi.perm, fun key => ⟨fun hkey => ?_, ?_⟩⟩
  · obtain ⟨p, hp, hpkey, hst⟩ := hi.accounted.stored_sent key hkey
    exact ⟨p, mem_failed.2 ⟨hp, hst⟩, hpkey⟩
  · rintro ⟨p, hp, rfl⟩
    have hst : w.app.failedMessages p.key = keccak256 p.payload := (mem_failed.1 hp).2
    rw [hst]
    exact hK.ne_zero _

/-! ## A run -/

section Example

def firstPacket : Packet := ⟨110, [Abi.lastByte 7], 1, [Abi.lastByte 0]⟩

def secondPacket : Packet := ⟨110, [Abi.lastByte 7], 2, [Abi.lastByte 1]⟩

/-- An heir that counts its messages. It refuses the first packet as long as there was no other
one, and the processing of any message retries the first packet. -/
def counting (p : Packet) : Program ℕ :=
  .load fun n =>
    if n = 0 ∧ p = firstPacket then .revert (.reason "too early")
    else .store (n + 1) (.retryMessage firstPacket fun _ => .done)

/-- Two messages are on their way. -/
def twoSent : Delivery (WithZero Bytes) ℕ where
  app := { LzApp.untrusting with failedMessages := fun _ => 0, heir := (0, []) }
  sent := [secondPacket, firstPacket]
  inFlight := [secondPacket, firstPacket]
  dropped := []

variable {toy : Packet → Program ℕ}

instance (w : Delivery (WithZero Bytes) ℕ) (a : Address) :
    Decidable ((system LzApp.hashOf toy).IsCaller w a) :=
  inferInstanceAs (Decidable (_ ≠ _))

theorem twoSent_reachable : (system LzApp.hashOf toy).Reachable [] twoSent := by
  refine ⟨{ twoSent with sent := [], inFlight := [] }, ⟨rfl, rfl, rfl, rfl, rfl, rfl⟩, ?_⟩
  have hfirst : (system LzApp.hashOf toy).Elsewhere { twoSent with sent := [], inFlight := [] }
      { twoSent with sent := [firstPacket], inFlight := [firstPacket] } := .send (by simp)
  have hsecond : (system LzApp.hashOf toy).Elsewhere
      { twoSent with sent := [firstPacket], inFlight := [firstPacket] } twoSent :=
    .send (by decide)
  exact .elsewhere (.elsewhere .refl hfirst) hsecond

/-- The calls of a log after the two messages were sent. -/
def played (toy : Packet → Program ℕ) (log : List (Event Address Call)) :
    Tx (Delivery (WithZero Bytes) ℕ) :=
  (system LzApp.hashOf toy).play (fun w _ => w) twoSent log

theorem reachable_of_played {log : List (Event Address Call)} {w : Delivery (WithZero Bytes) ℕ}
    (h : played toy log = .ok w) : (system LzApp.hashOf toy).Reachable log w := by
  obtain ⟨w₀, h₀, hsteps⟩ := twoSent_reachable
  have hplay := System.Steps.play (fun w _ _ => Elsewhere.heir w.app.heir.1) h
  exact ⟨w₀, h₀, hsteps.trans hplay⟩

/-- The owner, the account 1, trusts the remote, and the endpoint, the account 2, brings both. -/
def bothBrought : List (Event Address Call) :=
  [⟨0, 1, .setTrustedRemote 110 [Abi.lastByte 7]⟩, ⟨0, 2, .lzReceive firstPacket 1⟩,
    ⟨0, 2, .lzReceive secondPacket 2⟩]

/-- The first message is refused, and retried while the second one is processed. -/
theorem exactly_once_run : ∃ w, (system LzApp.hashOf counting).Reachable bothBrought w ∧
    w.executed = [secondPacket, firstPacket] ∧
    (w.executed ++ w.failed LzApp.hashOf ++ w.inFlight ++ w.dropped).Perm w.sent := by
  obtain ⟨w, hw⟩ := Tx.exists_ok (x := played counting bothBrought) (by decide +kernel)
  have hexecuted : (played counting bothBrought).map executed =
      .ok [secondPacket, firstPacket] := by decide +kernel
  rw [hw] at hexecuted
  have h := reachable_of_played hw
  exact ⟨w, h, Except.ok.inj hexecuted, (exactly_once LzApp.collisionFree_hashOf h).2.1⟩

end Example

/-! ## Trusted remotes -/

/-- The owner once trusted a path. -/
def TrustedBy (log : List (Event Address Call)) (s : LzApp) (c : ChainId) (path : Bytes) : Prop :=
  ∃ e ∈ log, e.sender = s.owner ∧ (e.call = .setTrustedRemote c path ∨
    ∃ a, e.call = .setTrustedRemoteAddress c a ∧ path = a ++ encodePacked s.self)

omit [DecidableEq D] [Zero D] in
theorem TrustedBy.append {s : LzApp} {c : ChainId} {path : Bytes} (h : TrustedBy log s c path)
    (e : Event Address Call) : TrustedBy (log ++ [e]) s c path := by
  obtain ⟨e', he', h⟩ := h
  exact ⟨e', List.mem_append_left _ he', h⟩

/-- Every message that was executed or is stored came on a path that meets `T`. -/
def Sourced (T : ChainId → Bytes → Prop) (s : NonblockingLzApp D (σ × List Packet)) : Prop :=
  (∀ p ∈ s.heir.2, T p.srcChainId p.srcAddress) ∧
    ∀ key : Key, s.failedMessages key ≠ 0 → T key.1 key.2.1

omit [DecidableEq D] in
theorem Sourced.mono {T T' : ChainId → Bytes → Prop} {s : NonblockingLzApp D (σ × List Packet)}
    (h : Sourced T s) (hT : ∀ c path, T c path → T' c path) : Sourced T' s :=
  ⟨fun p hp => hT _ _ (h.1 p hp), fun key hkey => hT _ _ (h.2 key hkey)⟩

omit [DecidableEq D] in
theorem Sourced.clear {T : ChainId → Bytes → Prop} {s : NonblockingLzApp D (σ × List Packet)}
    (h : Sourced T s) (p : Packet) :
    Sourced T { s with failedMessages := update s.failedMessages p.key 0 } := by
  refine ⟨h.1, fun key hkey => h.2 key fun hzero => hkey ?_⟩
  by_cases hk : key = p.key
  · rw [hk]
    exact update_self _ _ _
  · exact (update_of_ne hk _ _).trans hzero

theorem Sourced.execute {T : ChainId → Bytes → Prop} {depth : ℕ} {p : Packet}
    {s s' : NonblockingLzApp D (σ × List Packet)} (h : Sourced T s)
    (hp : T p.srcChainId p.srcAddress)
    (hx : NonblockingLzApp.execute keccak256 (logged heir) depth p s = .ok s') : Sourced T s' := by
  refine execute_induct (I := Sourced T)
    (J := fun p s => Sourced T s ∧ T p.srcChainId p.srcAddress) (fun _ _ h => h)
    (fun p s h => ⟨fun q hq => ?_, h.1.2⟩) (fun p s h hne _ => ⟨h.clear p, h.2 p.key hne⟩)
    depth p s s' ⟨h, hp⟩ hx
  rcases List.mem_append.1 hq with hq | hq
  · exact h.1.1 q hq
  · rw [List.mem_singleton.1 hq]
    exact h.2

omit [DecidableEq D] in
theorem Sourced.store {T : ChainId → Bytes → Prop} {p : Packet}
    {s : NonblockingLzApp D (σ × List Packet)} (h : Sourced T s)
    (hp : T p.srcChainId p.srcAddress) : Sourced T (s._storeFailedMessage keccak256 p) := by
  refine ⟨h.1, fun key hkey => ?_⟩
  by_cases hk : key = p.key
  · rw [hk]
    exact hp
  · refine h.2 key ?_
    unfold NonblockingLzApp._storeFailedMessage at hkey
    dsimp only at hkey
    rwa [update_of_ne hk] at hkey

/-- The paths that are trusted now were trusted by the owner, and so were those of the messages
that were executed or stored. -/
structure FromTrusted (log : List (Event Address Call)) (w : Delivery D σ) : Prop where
  now : ∀ c, w.app.trustedRemoteLookup c ≠ [] →
    TrustedBy log w.app.toLzApp c (w.app.trustedRemoteLookup c)
  sourced : Sourced (TrustedBy log w.app.toLzApp) w.app

omit [DecidableEq D] in
theorem FromTrusted.deployed (h : Deployed w) : FromTrusted [] w where
  now c hc := by
    rw [h.trustedRemoteLookup] at hc
    exact absurd rfl hc
  sourced := by
    have hlog : w.app.heir.2 = [] := h.executed
    refine ⟨fun p hp => ?_, fun key hkey => ?_⟩
    · rw [hlog] at hp
      cases hp
    · rw [h.failedMessages] at hkey
      exact absurd rfl hkey

/-- The storage of `LzApp` in which only the trusted remotes may differ. -/
theorem TrustedBy.congr {s s' : LzApp} {c : ChainId} {path : Bytes} (h : TrustedBy log s c path)
    (howner : s'.owner = s.owner) (hself : s'.self = s.self) : TrustedBy log s' c path := by
  unfold TrustedBy at h ⊢
  rwa [howner, hself]

omit [DecidableEq D] in
/-- A trusted remote that the owner sets. -/
theorem FromTrusted.trust (h : FromTrusted log w) {e : Event Address Call} {c : ChainId}
    {path : Bytes} (hpath : TrustedBy (log ++ [e]) w.app.toLzApp c path) :
    FromTrusted (log ++ [e]) (w.withLzApp (w.app.trust c path)) where
  now d hd := by
    by_cases hdc : d = c
    · subst hdc
      have hself : (w.app.trust d path).trustedRemoteLookup d = path := LzApp.trust_self _ d path
      show TrustedBy _ _ d ((w.app.trust d path).trustedRemoteLookup d)
      rw [hself]
      exact hpath.congr rfl rfl
    · have hother : (w.app.trust c path).trustedRemoteLookup d = w.app.trustedRemoteLookup d := by
        unfold LzApp.trust
        exact update_of_ne hdc _ _
      change (w.app.trust c path).trustedRemoteLookup d ≠ [] at hd
      show TrustedBy _ _ d ((w.app.trust c path).trustedRemoteLookup d)
      rw [hother] at hd ⊢
      exact ((h.now d hd).append e).congr rfl rfl
  sourced := h.sourced.mono fun _ _ ht => (ht.append e).congr rfl rfl

omit [DecidableEq D] in
/-- An event more lets no path lose its trust. -/
theorem FromTrusted.append (h : FromTrusted log w) (e : Event Address Call) :
    FromTrusted (log ++ [e]) w where
  now c hc := (h.now c hc).append _
  sourced := h.sourced.mono fun _ _ ht => ht.append _

omit [DecidableEq D] in
/-- Whatever leaves the settings alone leaves the trusted paths. -/
theorem FromTrusted.of_frame (h : FromTrusted log w) (hsame : w'.app.toLzApp = w.app.toLzApp)
    (hsourced : Sourced (TrustedBy log w.app.toLzApp) w'.app) : FromTrusted log w' where
  now := by
    rw [hsame]
    exact h.now
  sourced := by
    rw [hsame]
    exact hsourced

theorem FromTrusted.effect {call : Call} (h : FromTrusted log w)
    (he : Effect keccak256 heir w sender call w') (t : ℕ) :
    FromTrusted (log ++ [⟨t, sender, call⟩]) w' := by
  have hthen := h.append ⟨t, sender, call⟩
  cases he with
  | @lzReceive p depth hmem htrusted hne =>
    have hp : TrustedBy (log ++ [⟨t, sender, .lzReceive p depth⟩]) w.app.toLzApp p.srcChainId
        p.srcAddress := by
      have hpath := hthen.now p.srcChainId (htrusted ▸ hne)
      rwa [← htrusted] at hpath
    cases hx : NonblockingLzApp.execute keccak256 (logged heir) depth p w.app with
    | ok app =>
      have happ : w.app._blockingLzReceive keccak256 (logged heir) depth p = app := by
        unfold NonblockingLzApp._blockingLzReceive NonblockingLzApp.nonblockingLzReceive
        rw [require_of rfl, ok_bind, hx]
      rw [happ]
      exact hthen.of_frame (execute_frame hx).1 (hthen.sourced.execute hp hx)
    | error e =>
      have happ : w.app._blockingLzReceive keccak256 (logged heir) depth p =
          w.app._storeFailedMessage keccak256 p := by
        unfold NonblockingLzApp._blockingLzReceive NonblockingLzApp.nonblockingLzReceive
        rw [require_of rfl, ok_bind, hx]
      rw [happ]
      exact hthen.of_frame rfl (hthen.sourced.store hp)
  | @retryMessage p depth app hx =>
    obtain ⟨hne, hx⟩ := require_bind_eq_ok.1 hx
    obtain ⟨-, hx⟩ := require_bind_eq_ok.1 hx
    exact hthen.of_frame (execute_frame hx).1
      ((hthen.sourced.clear p).execute (hthen.sourced.2 p.key hne) hx)
  | forceResumeReceive => exact hthen.of_frame rfl hthen.sourced
  | setTrustedRemote howner =>
    exact h.trust ⟨_, List.mem_append_right _ (List.mem_singleton_self _), howner, Or.inl rfl⟩
  | setTrustedRemoteAddress howner =>
    exact h.trust ⟨_, List.mem_append_right _ (List.mem_singleton_self _), howner,
      Or.inr ⟨_, rfl, rfl⟩⟩

theorem FromTrusted.of_reachable (hK : CollisionFree keccak256)
    (h : (system keccak256 heir).Reachable log w) : FromTrusted log w := by
  refine System.Reachable.induct (P := fun log w => FromTrusted log w) (fun _ => .deployed)
    (fun _ w w' hi he => ?_)
    (fun _ w w' sender c hi hc hx => hi.effect (effect_of_exec hK hc hx) 0) h
  cases he with
  | send => exact ⟨hi.now, hi.sourced⟩
  | heir => exact ⟨hi.now, hi.sourced⟩

/-- Every message that was executed or is stored came on a path that the owner had trusted,
although anybody can send messages and call the contract. -/
theorem executed_trusted (hK : CollisionFree keccak256)
    (h : (system keccak256 heir).Reachable log w) {p : Packet}
    (hp : p ∈ w.executed ++ w.failed keccak256) :
    TrustedBy log w.app.toLzApp p.srcChainId p.srcAddress := by
  have hfrom := FromTrusted.of_reachable hK h
  rcases List.mem_append.1 hp with hp | hp
  · exact hfrom.sourced.1 p hp
  · have hst : w.app.failedMessages p.key = keccak256 p.payload := (mem_failed.1 hp).2
    exact hfrom.sourced.2 p.key (hst ▸ hK.ne_zero _)

/-- The path of the first message was trusted. -/
theorem executed_trusted_run : ∃ w : Delivery (WithZero Bytes) ℕ, firstPacket ∈ w.executed ∧
    TrustedBy bothBrought w.app.toLzApp 110 [Abi.lastByte 7] := by
  obtain ⟨w, hw⟩ := Tx.exists_ok (x := played counting bothBrought) (by decide +kernel)
  have hexecuted : (played counting bothBrought).map
      (fun w => decide (firstPacket ∈ w.executed)) = .ok true := by decide +kernel
  rw [hw] at hexecuted
  have hmem : firstPacket ∈ w.executed := of_decide_eq_true (Except.ok.inj hexecuted)
  exact ⟨w, hmem, executed_trusted LzApp.collisionFree_hashOf (reachable_of_played hw)
    (List.mem_append_left _ hmem)⟩

/-! ## The trusted path -/

namespace Delivery

/-- The path of `c` after a call of the owner, if it was `path` before. -/
def Call.pathAfter (self : Address) (c : ChainId) (path : Bytes) : Call → Bytes
  | .setTrustedRemote d p => if d = c then p else path
  | .setTrustedRemoteAddress d a => if d = c then a ++ encodePacked self else path
  | _ => path

/-- Whether a call sets a trusted remote. -/
def Call.setsRemote : Call → Bool
  | .setTrustedRemote _ _ | .setTrustedRemoteAddress _ _ => true
  | _ => false

/-- The path of `c` that was set last, or the empty path. -/
def lastTrusted (self : Address) (c : ChainId) (log : List (Event Address Call)) : Bytes :=
  log.foldl (fun path e => e.call.pathAfter self c path) []

end Delivery

/-- The trusted paths are those that were set last, by the owner. -/
structure LastTrusted (log : List (Event Address Call)) (w : Delivery D σ) : Prop where
  lookup : ∀ c, w.app.trustedRemoteLookup c = lastTrusted w.app.self c log
  owner : ∀ e ∈ log, e.call.setsRemote = true → e.sender = w.app.owner

omit [DecidableEq D] in
theorem LastTrusted.deployed (h : Deployed w) : LastTrusted [] w where
  lookup c := by
    rw [h.trustedRemoteLookup]
    rfl
  owner e he := absurd he List.not_mem_nil

omit [DecidableEq D] [Zero D] in
/-- A call that does not touch the storage of `LzApp`. -/
theorem LastTrusted.quiet (h : LastTrusted log w) {e : Event Address Call}
    (he : e.call.setsRemote = false) (happ : w'.app.toLzApp = w.app.toLzApp) :
    LastTrusted (log ++ [e]) w' where
  lookup c := by
    have hsame (path : Bytes) : e.call.pathAfter w.app.self c path = path := by
      cases hcall : e.call with
      | setTrustedRemote d p | setTrustedRemoteAddress d p =>
        rw [hcall] at he
        cases he
      | _ => rfl
    rw [happ, lastTrusted, List.foldl_append]
    show _ = e.call.pathAfter w.app.self c (lastTrusted w.app.self c log)
    rw [hsame]
    exact h.lookup c
  owner d hd hset := by
    rw [happ]
    rcases List.mem_append.1 hd with hd | hd
    · exact h.owner d hd hset
    · rw [List.mem_singleton.1 hd, he] at hset
      cases hset

omit [DecidableEq D] [Zero D] in
/-- The owner sets the path of a chain. -/
theorem LastTrusted.trust (h : LastTrusted log w) {e : Event Address Call} {d : ChainId}
    {path : Bytes} (howner : e.sender = w.app.owner)
    (hcall : ∀ c p, e.call.pathAfter w.app.self c p = if d = c then path else p) :
    LastTrusted (log ++ [e]) (w.withLzApp (w.app.trust d path)) where
  lookup c := by
    show update w.app.trustedRemoteLookup d path c = _
    rw [lastTrusted, List.foldl_append]
    show _ = e.call.pathAfter w.app.self c (lastTrusted w.app.self c log)
    rw [hcall]
    split_ifs with hdc
    · rw [hdc, update_self]
    · rw [update_of_ne (Ne.symm hdc)]
      exact h.lookup c
  owner f hf hset := by
    rcases List.mem_append.1 hf with hf | hf
    · exact h.owner f hf hset
    · rw [List.mem_singleton.1 hf]
      exact howner

theorem LastTrusted.effect {call : Call} (h : LastTrusted log w)
    (he : Effect keccak256 heir w sender call w') (t : ℕ) :
    LastTrusted (log ++ [⟨t, sender, call⟩]) w' := by
  have happ := he.toLzApp
  cases he with
  | lzReceive | retryMessage | forceResumeReceive => exact h.quiet rfl happ
  | setTrustedRemote howner | setTrustedRemoteAddress howner =>
    exact h.trust howner fun _ _ => rfl

theorem LastTrusted.of_reachable (hK : CollisionFree keccak256)
    (h : (system keccak256 heir).Reachable log w) : LastTrusted log w := by
  refine System.Reachable.induct (P := fun log w => LastTrusted log w) (fun _ => .deployed)
    (fun _ w w' hi he => ?_)
    (fun _ w w' sender c hi hc hx => hi.effect (effect_of_exec hK hc hx) 0) h
  cases he with
  | send | heir => exact ⟨hi.lookup, hi.owner⟩

/-- In every run only the owner sets trusted paths, and the last one that it has set for a chain
decides : the endpoint can bring a message exactly if it came on that path and the path is not
empty, so that with a path from `remote` to this contract these are the messages of `remote` to
this contract ; a message can be sent to the chain exactly if there is such a path and the payload
is not too large, and it goes there ; `isTrustedRemote` says the same, but for the empty path,
which it also trusts. -/
theorem receives_iff (hK : CollisionFree keccak256)
    (h : (system keccak256 heir).Reachable log w) (c : ChainId) :
    (∀ e ∈ log, e.call.setsRemote = true → e.sender = w.app.owner) ∧
    (∀ sender p depth, p.srcChainId = c →
      ((∃ w', exec keccak256 heir w sender (.lzReceive p depth) = .ok w') ↔
        sender = w.app.lzEndpoint ∧ p ∈ w.inFlight ∧
          p.srcAddress = lastTrusted w.app.self c log ∧ p.srcAddress ≠ [])) ∧
    (∀ remote, lastTrusted w.app.self c log = LzApp.pathOf remote w.app.self →
      ∀ p src dst depth, p.srcChainId = c → p ∈ w.inFlight → p.srcAddress = LzApp.pathOf src dst →
        ((∃ w', exec keccak256 heir w w.app.lzEndpoint (.lzReceive p depth) = .ok w') ↔
          src = remote ∧ dst = w.app.self)) ∧
    (∀ payload o, w.app._lzSend c payload = .ok o ↔
      lastTrusted w.app.self c log ≠ [] ∧ (w.app._checkPayloadSize c payload.length = .ok ()) ∧
        o = ⟨c, lastTrusted w.app.self c log, payload⟩) ∧
    ∀ path, w.app.isTrustedRemote keccak256 c path = true ↔
      path = lastTrusted w.app.self c log := by
  obtain ⟨hlookup, howner⟩ := LastTrusted.of_reachable hK h
  have hreceives (sender : Address) (p : Packet) (depth : ℕ) (hp : p.srcChainId = c) :
      (∃ w', exec keccak256 heir w sender (.lzReceive p depth) = .ok w') ↔
        sender = w.app.lzEndpoint ∧ p ∈ w.inFlight ∧
          p.srcAddress = lastTrusted w.app.self c log ∧ p.srcAddress ≠ [] := by
    rw [← hlookup, ← hp]
    constructor
    · rintro ⟨w', hx⟩
      obtain ⟨hmem, hx⟩ := require_bind_eq_ok.1 hx
      obtain ⟨app, happ, -⟩ := bind_eq_ok.1 hx
      obtain ⟨hendpoint, htrusted, hne, -⟩ := (LzApp.lzReceive_eq_ok hK).1 happ
      exact ⟨hendpoint, hmem hendpoint, htrusted, hne⟩
    · rintro ⟨hendpoint, hmem, htrusted, hne⟩
      have happ : w.app.lzReceive keccak256 (logged heir) depth sender p =
          .ok (w.app._blockingLzReceive keccak256 (logged heir) depth p) :=
        (LzApp.lzReceive_eq_ok hK).2 ⟨hendpoint, htrusted, hne, rfl⟩
      unfold exec
      dsimp only
      rw [require_of fun _ => hmem, ok_bind, happ]
      exact ⟨_, rfl⟩
  refine ⟨howner, hreceives, fun remote hpath p src dst depth hp hmem haddress => ?_,
    fun payload o => ?_, fun path => ?_⟩
  · rw [hreceives _ p depth hp, hpath, haddress]
    constructor
    · rintro ⟨-, -, heq, -⟩
      exact LzApp.pathOf_inj heq
    · rintro ⟨rfl, rfl⟩
      exact ⟨rfl, hmem, rfl, LzApp.pathOf_ne_nil _ _⟩
  · unfold LzApp._lzSend
    rw [require_bind_eq_ok, bind_eq_ok, hlookup]
    constructor
    · rintro ⟨hne, ⟨⟩, hsize, ho⟩
      exact ⟨List.ne_nil_of_length_pos (Nat.pos_of_ne_zero hne), hsize, (Except.ok.inj ho).symm⟩
    · rintro ⟨hne, hsize, rfl⟩
      exact ⟨(List.length_pos_of_ne_nil hne).ne', (), hsize, rfl⟩
  · unfold LzApp.isTrustedRemote
    rw [hlookup, decide_eq_true_iff]
    exact ⟨fun heq => (hK.inj heq).symm, fun heq => heq ▸ rfl⟩

/-- The owner trusts the path of the two messages and then another one : the endpoint can bring
the first message before and the second no more. -/
theorem receives_iff_run : ∃ w w' : Delivery (WithZero Bytes) ℕ,
    (∃ v, exec LzApp.hashOf counting w 2 (.lzReceive firstPacket 1) = .ok v) ∧
    ¬∃ v, exec LzApp.hashOf counting w' 2 (.lzReceive secondPacket 1) = .ok v := by
  let log : List (Event Address Call) := [⟨0, 1, .setTrustedRemote 110 [Abi.lastByte 7]⟩]
  let log' : List (Event Address Call) :=
    [⟨0, 1, .setTrustedRemote 110 [Abi.lastByte 7]⟩, ⟨0, 2, .lzReceive firstPacket 1⟩,
      ⟨0, 1, .setTrustedRemoteAddress 110 (encodePacked 8)⟩]
  have hw : (played counting log).map (fun w => (w.app.lzEndpoint, w.app.self,
      decide (firstPacket ∈ w.inFlight))) = .ok (2, 9, true) := by decide +kernel
  have hw' : (played counting log').map (fun w => w.app.self) = .ok 9 := by decide +kernel
  obtain ⟨w, hw, hvalues⟩ := Tx.map_eq_ok.1 hw
  obtain ⟨w', hw', hself'⟩ := Tx.map_eq_ok.1 hw'
  simp only [Prod.mk.injEq, decide_eq_true_eq] at hvalues
  obtain ⟨hendpoint, hself, hmem⟩ := hvalues
  obtain ⟨-, hreceives, -⟩ :=
    receives_iff LzApp.collisionFree_hashOf (reachable_of_played hw) 110
  obtain ⟨-, hreceives', -⟩ :=
    receives_iff LzApp.collisionFree_hashOf (reachable_of_played hw') 110
  refine ⟨w, w', (hreceives 2 firstPacket 1 rfl).2 ⟨hendpoint.symm, hmem, ?_, ?_⟩, fun hx => ?_⟩
  · rw [hself]
    decide +kernel
  · decide
  · obtain ⟨-, -, hpath, -⟩ := (hreceives' 2 secondPacket 1 rfl).1 hx
    rw [hself'] at hpath
    exact absurd hpath (by decide +kernel)

/-! ## Retries -/

/-- The contract after a stored message was taken, without the log. -/
def NonblockingLzApp.taken (s : NonblockingLzApp D (σ × List Packet)) (p : Packet) :
    NonblockingLzApp D σ :=
  { s.forget with failedMessages := update s.failedMessages p.key 0 }

/-- Whoever asks for it, a retry succeeds exactly for a message that is stored, with its payload,
when the heir processes it now. It is executed then, and not stored any more. -/
theorem retryMessage_returns_iff (hK : CollisionFree keccak256)
    (h : (system keccak256 heir).Reachable log w) (sender : Address) (p : Packet) (depth : ℕ) :
    ((∃ w', exec keccak256 heir w sender (.retryMessage p depth) = .ok w') ↔
      p ∈ w.failed keccak256 ∧
        ∃ s, NonblockingLzApp.execute keccak256 heir depth p (w.app.taken p) = .ok s) ∧
    ∀ w', exec keccak256 heir w sender (.retryMessage p depth) = .ok w' →
      p ∈ w'.executed ∧ p ∉ w'.failed keccak256 := by
  have hi := Inv.of_reachable hK h
  have hlogged := @execute_logged D σ _ _ keccak256 heir depth p
    { w.app with failedMessages := update w.app.failedMessages p.key 0 }
  refine ⟨⟨?_, ?_⟩, fun w' hx => ?_⟩
  · rintro ⟨w', hx⟩
    obtain ⟨app, hx, -⟩ := bind_eq_ok.1 hx
    obtain ⟨hne, hx⟩ := require_bind_eq_ok.1 hx
    obtain ⟨hhash, hx⟩ := require_bind_eq_ok.1 hx
    rw [hx] at hlogged
    exact ⟨mem_failed.2 ⟨hi.accounted.mem_of_hash hK hne hhash, hhash.symm⟩, _, hlogged.symm⟩
  · rintro ⟨hp, s, hs⟩
    have hst : w.app.failedMessages p.key = keccak256 p.payload := (mem_failed.1 hp).2
    cases hx : NonblockingLzApp.execute keccak256 (logged heir) depth p
        { w.app with failedMessages := update w.app.failedMessages p.key 0 } with
    | ok app =>
      refine ⟨{ w with app }, ?_⟩
      unfold exec NonblockingLzApp.retryMessage
      dsimp only
      rw [require_of (hst ▸ hK.ne_zero _), ok_bind, require_of hst.symm, ok_bind, hx, ok_bind]
    | error e =>
      rw [hx] at hlogged
      have herror := hlogged.trans hs
      cases herror
  · obtain ⟨app, happ, hw'⟩ := bind_eq_ok.1 hx
    cases hw'
    obtain ⟨hne, hx⟩ := require_bind_eq_ok.1 happ
    obtain ⟨hhash, hx⟩ := require_bind_eq_ok.1 hx
    have hacc := (hi.accounted.clear hK hi.keys hne hhash).execute hK hi.keys hx
    have hmem : p ∈ app.heir.2 := (execute_frame hx).2
    refine ⟨hmem, fun hfailed => ?_⟩
    -- it would be counted twice
    obtain ⟨hp, hst⟩ := mem_failed.1 hfailed
    have hone := hacc.once p hp
    have hpos : 0 < app.heir.2.count p := List.count_pos_iff.2 hmem
    have hst : app.Stored keccak256 p := hst
    rw [if_pos hst] at hone
    omega

/-- The first message arrives with too little gas, and is retried by the account 5. -/
theorem retryMessage_returns_iff_run : ∃ w w' : Delivery (WithZero Bytes) ℕ,
    w.app.Stored LzApp.hashOf firstPacket ∧
    exec LzApp.hashOf counting w 5 (.retryMessage firstPacket 1) = .ok w' ∧
    firstPacket ∈ w'.executed := by
  let log : List (Event Address Call) := [⟨0, 1, .setTrustedRemote 110 [Abi.lastByte 7]⟩,
    ⟨0, 2, .lzReceive secondPacket 1⟩, ⟨0, 2, .lzReceive firstPacket 0⟩]
  obtain ⟨w, hw⟩ := Tx.exists_ok (x := played counting log) (by decide +kernel)
  have hstate : (played counting log).map (fun w =>
      (decide (firstPacket ∈ w.sent ∧ w.app.Stored LzApp.hashOf firstPacket),
        (NonblockingLzApp.execute LzApp.hashOf counting 1 firstPacket
          (w.app.taken firstPacket)).returns)) = .ok (true, true) := by decide +kernel
  rw [hw] at hstate
  obtain ⟨hstored, hreturns⟩ := Prod.mk.inj (Except.ok.inj hstate)
  have hstored := of_decide_eq_true hstored
  obtain ⟨hiff, hexecuted⟩ := retryMessage_returns_iff LzApp.collisionFree_hashOf
    (reachable_of_played hw) 5 firstPacket 1
  obtain ⟨w', hw'⟩ := hiff.2 ⟨mem_failed.2 hstored, Tx.exists_ok hreturns⟩
  exact ⟨w, w', hstored.2, hw', (hexecuted w' hw').1⟩

/-! ## Heirs that are not entered again -/

/-- A call does nothing to the storage of the heir and to the log, or processes one message. -/
theorem Effect.processes {f : Packet → σ → Tx σ} {call : Call}
    (h : Effect keccak256 (fun p => .ofTx (f p)) w sender call w') :
    w'.sent = w.sent ∧ w'.app.self = w.app.self ∧
    (w'.app.heir = w.app.heir ∨ ∃ p s, f p w.app.heir.1 = .ok s ∧
      w'.app.heir = (s, w.app.heir.2 ++ [p])) := by
  cases h with
  | @lzReceive p depth hmem =>
    refine ⟨rfl, ?_⟩
    dsimp only
    unfold NonblockingLzApp._blockingLzReceive NonblockingLzApp.nonblockingLzReceive
    rw [require_of rfl, ok_bind]
    cases depth with
    | zero => exact ⟨rfl, Or.inl rfl⟩
    | succ depth =>
      rw [execute_ofTx]
      cases hf : f p w.app.heir.1 with
      | ok s => exact ⟨rfl, Or.inr ⟨p, s, hf, rfl⟩⟩
      | error e => exact ⟨rfl, Or.inl rfl⟩
  | @retryMessage p depth app hx =>
    obtain ⟨-, hx⟩ := require_bind_eq_ok.1 hx
    obtain ⟨-, hx⟩ := require_bind_eq_ok.1 hx
    cases depth with
    | zero => cases hx
    | succ depth =>
      rw [execute_ofTx] at hx
      cases hf : f p w.app.heir.1 with
      | ok s =>
        rw [hf] at hx
        cases hx
        exact ⟨rfl, rfl, Or.inr ⟨p, s, hf, rfl⟩⟩
      | error e =>
        rw [hf] at hx
        cases hx
  | forceResumeReceive => exact ⟨rfl, rfl, Or.inl rfl⟩
  | setTrustedRemote => exact ⟨rfl, rfl, Or.inl rfl⟩
  | setTrustedRemoteAddress => exact ⟨rfl, rfl, Or.inl rfl⟩

/-- A stored message that the heir processes now can be retried. -/
theorem exec_retryMessage (hK : CollisionFree keccak256) {f : Packet → σ → Tx σ} {p : Packet}
    {s : σ} (hst : w.app.Stored keccak256 p) (hs : f p w.app.heir.1 = .ok s) (sender : Address)
    (depth : ℕ) :
    exec keccak256 (fun p => .ofTx (f p)) w sender (.retryMessage p (depth + 1)) =
      .ok { w with app := ⟨w.app.toLzApp, update w.app.failedMessages p.key 0,
        (s, w.app.heir.2 ++ [p])⟩ } := by
  have hst : w.app.failedMessages p.key = keccak256 p.payload := hst
  unfold exec NonblockingLzApp.retryMessage
  dsimp only
  rw [require_of (hst ▸ hK.ne_zero _), ok_bind, require_of hst.symm, ok_bind, execute_ofTx]
  dsimp only
  rw [hs]
  rfl

/-! ## Refinement -/

/-- The messages that were not processed. -/
def Delivery.mail (keccak256 : Bytes → D) (w : Delivery D σ) : Mail Packet where
  inFlight := w.inFlight
  failed := w.failed keccak256

/-- The same messages, whatever the order of those that failed. -/
structure SameMail (a b : Mail Packet) : Prop where
  inFlight : a.inFlight = b.inFlight
  failed : a.failed.Perm b.failed

section Refinement

variable {f : Packet → σ → Tx σ} {p : Packet} {depth : ℕ}

omit [Zero D] in
/-- The stored messages among those that were sent. -/
theorem filter_stored_perm {app : NonblockingLzApp D (σ × List Packet)} {sent l : List Packet}
    (hsent : sent.Nodup) (hl : l.Nodup)
    (h : ∀ q, q ∈ l ↔ q ∈ sent ∧ app.Stored keccak256 q) :
    (sent.filter fun q => app.Stored keccak256 q).Perm l := by
  refine (List.perm_ext_iff_of_nodup (hsent.filter _) hl).2 fun q => ?_
  rw [List.mem_filter, decide_eq_true_iff]
  exact (h q).symm

/-- Storing a message that arrives adds it. -/
theorem Inv.filter_store (h : Inv keccak256 w) (hp : p ∈ w.inFlight) :
    (w.sent.filter fun q => (w.app._storeFailedMessage keccak256 p).Stored keccak256 q).Perm
      (p :: w.failed keccak256) := by
  have hnodup : w.sent.Nodup := h.keys.of_map
  have hsent : p ∈ w.sent := h.accounted.waiting_sent p (List.mem_append_left _ hp)
  have hnot : p ∉ w.failed keccak256 := by
    intro hmem
    have hone := h.accounted.once p hsent
    have hpos := List.count_pos_iff.2 (List.mem_append_left w.dropped hp)
    rw [if_pos (mem_failed.1 hmem).2] at hone
    omega
  refine filter_stored_perm hnodup (List.nodup_cons.2 ⟨hnot, hnodup.filter _⟩) fun q => ?_
  rw [List.mem_cons, mem_failed]
  by_cases hqp : q = p
  · subst hqp
    exact iff_of_true (Or.inl rfl) ⟨hsent, update_self _ _ _⟩
  · rw [or_iff_right hqp]
    refine and_congr_right fun hq => ?_
    unfold NonblockingLzApp.Stored NonblockingLzApp._storeFailedMessage
    dsimp only
    rw [update_of_ne fun heq => hqp (eq_of_key h.keys hq hsent heq)]

/-- Taking a stored message removes it. -/
theorem Inv.filter_clear (hK : CollisionFree keccak256) (h : Inv keccak256 w)
    (hp : p ∈ w.failed keccak256) {g : σ × List Packet} :
    (w.sent.filter fun q => NonblockingLzApp.Stored keccak256
        ⟨w.app.toLzApp, update w.app.failedMessages p.key 0, g⟩ q).Perm
      ((w.failed keccak256).erase p) := by
  have hnodup : w.sent.Nodup := h.keys.of_map
  have hfailed : (w.failed keccak256).Nodup := hnodup.filter _
  refine filter_stored_perm hnodup (hfailed.erase p) fun q => ?_
  rw [hfailed.mem_erase_iff, mem_failed]
  by_cases hqp : q = p
  · subst hqp
    refine iff_of_false (fun hq => hq.1 rfl) fun hq => ?_
    have hzero : (0 : D) = keccak256 q.payload := (update_self _ _ _).symm.trans hq.2
    exact hK.ne_zero _ hzero.symm
  · rw [and_iff_right hqp]
    refine and_congr_right fun hq => ?_
    unfold NonblockingLzApp.Stored
    dsimp only
    rw [update_of_ne fun heq => hqp (eq_of_key h.keys hq (mem_failed.1 hp).1 heq)]

/-- With an heir that is not entered again, a message that arrives is delivered or fails, as the
heir does, and a retry is one of a message that failed. -/
theorem delivery_refines_mail (hK : CollisionFree keccak256)
    (h : (system keccak256 fun p => .ofTx (f p)).Reachable log w)
    (hsender : sender ≠ w.app.self) :
    (exec keccak256 (fun p => .ofTx (f p)) w sender (.lzReceive p depth) = .ok w' →
      p ∈ w.inFlight ∧
      ((∃ s, f p w.app.heir.1 = .ok s ∧ w'.app.heir.1 = s ∧
          SameMail (w'.mail keccak256) ((w.mail keccak256).deliver p)) ∨
        ((depth = 0 ∨ ∃ e, f p w.app.heir.1 = .error e) ∧ w'.app.heir.1 = w.app.heir.1 ∧
          SameMail (w'.mail keccak256) ((w.mail keccak256).fail p)))) ∧
    (exec keccak256 (fun p => .ofTx (f p)) w sender (.retryMessage p depth) = .ok w' →
      p ∈ (w.mail keccak256).failed ∧ ∃ s, f p w.app.heir.1 = .ok s ∧ w'.app.heir.1 = s ∧
        SameMail (w'.mail keccak256) ((w.mail keccak256).retry p)) := by
  have hi := Inv.of_reachable hK h
  constructor
  · intro hx
    cases effect_of_exec hK hsender hx with
    | lzReceive hmem =>
      refine ⟨hmem, ?_⟩
      have hfail := hi.filter_store hmem
      unfold NonblockingLzApp._blockingLzReceive NonblockingLzApp.nonblockingLzReceive
      rw [require_of rfl, ok_bind]
      cases depth with
      | zero => exact Or.inr ⟨Or.inl rfl, rfl, rfl, hfail⟩
      | succ depth =>
        rw [execute_ofTx]
        cases hf : f p w.app.heir.1 with
        | ok s => exact Or.inl ⟨s, rfl, rfl, rfl, List.Perm.refl _⟩
        | error e => exact Or.inr ⟨Or.inr ⟨e, rfl⟩, rfl, rfl, hfail⟩
  · intro hx
    cases effect_of_exec hK hsender hx with
    | retryMessage happ =>
      obtain ⟨hne, happ⟩ := require_bind_eq_ok.1 happ
      obtain ⟨hhash, happ⟩ := require_bind_eq_ok.1 happ
      have hp : p ∈ w.failed keccak256 :=
        mem_failed.2 ⟨hi.accounted.mem_of_hash hK hne hhash, hhash.symm⟩
      refine ⟨hp, ?_⟩
      cases depth with
      | zero => cases happ
      | succ depth =>
        rw [execute_ofTx] at happ
        cases hf : f p w.app.heir.1 with
        | error e =>
          rw [hf] at happ
          cases happ
        | ok s =>
          rw [hf] at happ
          cases happ
          exact ⟨s, rfl, rfl, rfl, hi.filter_clear hK hp⟩

/-- A counter that refuses the first packet as the first. -/
def counter (p : Packet) (n : ℕ) : Tx ℕ := do
  require (¬(n = 0 ∧ p = firstPacket)) "too early"
  .ok (n + 1)

/-- The second packet is delivered to the counter. -/
theorem delivery_refines_mail_run : ∃ w w' : Delivery (WithZero Bytes) ℕ, w.app.heir.1 = 0 ∧
    w'.app.heir.1 = 1 ∧
    SameMail (w'.mail LzApp.hashOf) ((w.mail LzApp.hashOf).deliver secondPacket) := by
  let toy : Packet → Program ℕ := fun p => .ofTx (counter p)
  let log : List (Event Address Call) := [⟨0, 1, .setTrustedRemote 110 [Abi.lastByte 7]⟩]
  obtain ⟨w, hw⟩ := Tx.exists_ok (x := played toy log) (by decide +kernel)
  have hstate : (played toy log).map (fun w => (w.app.heir.1, w.app.self,
      (exec LzApp.hashOf toy w 2 (.lzReceive secondPacket 1)).returns)) = .ok (0, 9, true) := by
    decide +kernel
  rw [hw] at hstate
  obtain ⟨hheir, hstate⟩ := Prod.mk.inj (Except.ok.inj hstate)
  obtain ⟨hself, hreturns⟩ := Prod.mk.inj hstate
  obtain ⟨w', hw'⟩ := Tx.exists_ok hreturns
  have hsender : (2 : Address) ≠ w.app.self := hself ▸ by decide
  obtain ⟨-, hdelivered | ⟨hfailed, -⟩⟩ := (delivery_refines_mail LzApp.collisionFree_hashOf
    (reachable_of_played hw) hsender).1 hw'
  · obtain ⟨n, hn, hheir', hsame⟩ := hdelivered
    rw [hheir] at hn
    cases hn
    exact ⟨w, w', hheir, hheir', hsame⟩
  · rcases hfailed with hzero | ⟨e, he⟩
    · cases hzero
    · rw [hheir] at he
      cases he

end Refinement

end Aura.Messages
