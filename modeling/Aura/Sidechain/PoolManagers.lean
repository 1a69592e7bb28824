import Aura.Messages.CrossChainMessages
import Aura.Messages.Delivery
import Aura.Sidechain.Coordinators

/-!
# Sidechain : pool managers

`L1PoolManagerProxy` and `L2PoolManagerProxy`. Anybody can have the recipients of root gauges
sent to a sidechain, once Balancer counts the root gauges as valid ones of the chain. The
receiver keeps the gauges that it was sent, and its keepers can add pools for these only.

The two are run together, with everything that others send. Where the owner trusts no other
remote, a gauge of the sidechain is valid only if it was approved (`Approved`) : a call of
`addPools` of the run checked, in the state it was made in, a root gauge whose recipient it is
(`keeper_adds_approved`). And what was approved gets through : the message of such a call
carries the recipients of all its root gauges, and once it was stored, it can be retried by
anybody and makes them valid (`approved_gets_through`).

The gauges and the pool manager are Balancer's and Convex's. Of a call of the pool manager it
is shown which one is made.
-/

open Evm Evm.Abi Function

namespace Aura.Sidechain

open Bridge (Bytes ChainId encodePacked)
open CrossChainMessages (addressOf addressOf_val)
open Messages
open Messages.Delivery (Elsewhere)

/-! ## L1PoolManagerProxy -/

/-- What Balancer says about gauges. -/
structure Gauges where
  hasGauge : String → Address → Bool
  get_gauge_weight : Address → ℕ
  getRecipient : Address → Address

/-- The storage of the contract. -/
structure L1PoolManagerProxy extends LzApp where
  lzChainId : ChainId
  gaugeTypes : ChainId → String

/-- `abi.encode(gauges)`. -/
def encodeGauges (gauges : List Address) : Bytes :=
  words [32] ++ encodeArray (gauges.map fun gauge : Address => Fin.val gauge)

/-- `abi.decode(_payload, (address[]))`. -/
def decodeGauges (_payload : Bytes) : Tx (List Address) := do
  require (32 ≤ _payload.length) ""
  let gauges ← arrayAt 160 _payload (wordAt _payload 0)
  .ok (gauges.map addressOf)

namespace L1PoolManagerProxy

/-- `_checkValidRootGauge`. -/
def _checkValidRootGauge (s : L1PoolManagerProxy) (b : Gauges) (_dstChainId : ChainId)
    (_gauge : Address) : Tx Unit := do
  let gaugeType := s.gaugeTypes _dstChainId
  require (_dstChainId ≠ s.lzChainId) "!dstChainId"
  require (gaugeType ≠ "") "!gaugeType"
  require (b.hasGauge gaugeType _gauge = true) "!checkpointer"
  let weight := b.get_gauge_weight _gauge
  require (0 < weight) "must have weight"

/-- A round of the loop of `addPools`. -/
def dstGauge (s : L1PoolManagerProxy) (b : Gauges) (_dstChainId : ChainId) (gauge : Address) :
    Tx Address := do
  s._checkValidRootGauge b _dstChainId gauge
  let dstGauge := b.getRecipient gauge
  require (dstGauge ≠ 0) "!dstGauge"
  .ok dstGauge

/-- `addPools`, up to the call of the endpoint. -/
def addPools (beyond : ℕ → Byte) (s : L1PoolManagerProxy) (b : Gauges) (_gauges : List Address)
    (_dstChainId : ChainId) (_adapterParams : Bytes) : Tx Outgoing := do
  s._checkGasLimit beyond _dstChainId 0 _adapterParams 0
  -- `new address[](gaugesLen)`
  bytesAt.allocate (32 * _gauges.length)
  let dstGauges ← _gauges.mapM (s.dstGauge b _dstChainId)
  s._lzSend _dstChainId (encodeGauges dstGauges)

/-- `setGaugeType`. -/
def setGaugeType (s : L1PoolManagerProxy) (sender : Address) (_lzChainId : ChainId)
    (gaugeType : String) : Tx L1PoolManagerProxy := do
  s.onlyOwner sender
  .ok { s with gaugeTypes := update s.gaugeTypes _lzChainId gaugeType }

end L1PoolManagerProxy

/-! ## L2PoolManagerProxy -/

/-- The storage of the contract beside that of `NonblockingLzApp`. -/
structure L2PoolManagerProxy where
  poolManager : Address
  isValidGauge : Address → Bool
  authorizedKeepers : Address → Bool

namespace L2PoolManagerProxy

/-- `isValidGauge[gauge] = true`. -/
def validate (s : L2PoolManagerProxy) (gauge : Address) : L2PoolManagerProxy :=
  { s with isValidGauge := update s.isValidGauge gauge true }

/-- `_nonblockingLzReceive`. -/
def _nonblockingLzReceive (p : Packet) (s : L2PoolManagerProxy) : Tx L2PoolManagerProxy := do
  let gauges ← decodeGauges p.payload
  .ok (gauges.foldl validate s)

/-- `addPool` : the pool manager that is called, and the gauge. -/
def addPool (s : L2PoolManagerProxy) (sender _gauge : Address) : Tx (Address × Address) := do
  require (s.authorizedKeepers sender = true) "!keeper"
  require (s.isValidGauge _gauge = true) "!valid"
  .ok (s.poolManager, _gauge)

end L2PoolManagerProxy

/-! ## Both -/

/-- The two contracts, the gauges, and what the second one is sent. -/
structure PoolManagers (D : Type) where
  l1 : L1PoolManagerProxy
  gauges : Gauges
  l2ChainId : ChainId
  l2 : Delivery D L2PoolManagerProxy

namespace PoolManagers

variable {D : Type}

inductive Call where
  | addPools (_gauges : List Address) (_dstChainId : ChainId) (_adapterParams : Bytes) (nonce : ℕ)
  | setGaugeType (_lzChainId : ChainId) (gaugeType : String)
  | setTrustedRemote (_srcChainId : ChainId) (_path : Bytes)
  | setMinDstGas (_dstChainId : ChainId) (_packetType _minGas : ℕ)
  /-- `lzReceive`, `retryMessage` and what else the second contract inherits. -/
  | l2 (c : Delivery.Call)
  | addPool (_gauge : Address)
  | ownerAddPool (_gauge : Address)
  | setPoolManager (_poolManager : Address)
  | updateAuthorizedKeepers (_keeper : Address) (_authorized : Bool)
  deriving DecidableEq

/-- The storage of the second contract. -/
def proxy (w : PoolManagers D) : L2PoolManagerProxy :=
  w.l2.app.heir.1

/-- The same, with other storage of the second contract. -/
def withProxy (w : PoolManagers D) (s : L2PoolManagerProxy) : PoolManagers D :=
  { w with l2 := { w.l2 with app := { w.l2.app with heir := (s, w.l2.app.heir.2) } } }

/-- The path from the first contract to the second. -/
def path (w : PoolManagers D) : Bytes :=
  LzApp.pathOf w.l1.self w.l2.app.self

/-- A message is on its way to the second contract. -/
def sent (w : PoolManagers D) (p : Packet) : PoolManagers D :=
  { w with l2 := { w.l2 with sent := p :: w.l2.sent, inFlight := p :: w.l2.inFlight } }

variable [DecidableEq D] [Zero D] (keccak256 : Bytes → D) (beyond : ℕ → Byte)

/-- What the second contract does with a message. -/
def receive (p : Packet) : Program L2PoolManagerProxy :=
  .ofTx (L2PoolManagerProxy._nonblockingLzReceive p)

/-- Run a call of `sender`. The endpoint gives the messages of the first contract a nonce each,
and brings those for the second one on the path between them. -/
def exec (w : PoolManagers D) (sender : Address) : Call → Tx (PoolManagers D)
  | .addPools _gauges _dstChainId _adapterParams nonce => do
    let o ← w.l1.addPools beyond w.gauges _gauges _dstChainId _adapterParams
    if o.dstChainId = w.l2ChainId ∧ o.path = LzApp.pathOf w.l2.app.self w.l1.self then do
      let p : Packet := ⟨w.l1.lzChainId, w.path, nonce, o.payload⟩
      require (p.key ∉ w.l2.sent.map Packet.key) "LayerZero: nonce"
      .ok (w.sent p)
    else .ok w
  | .setGaugeType _lzChainId gaugeType => do
    let l1 ← w.l1.setGaugeType sender _lzChainId gaugeType
    .ok { w with l1 }
  | .setTrustedRemote _srcChainId _path => do
    let s ← w.l1.setTrustedRemote sender _srcChainId _path
    .ok { w with l1 := { w.l1 with toLzApp := s } }
  | .setMinDstGas _dstChainId _packetType _minGas => do
    let s ← w.l1.setMinDstGas sender _dstChainId _packetType _minGas
    .ok { w with l1 := { w.l1 with toLzApp := s } }
  | .l2 c => do
    let l2 ← w.l2.exec keccak256 receive sender c
    .ok { w with l2 }
  | .addPool _gauge => do
    let _ ← w.proxy.addPool sender _gauge
    .ok w
  | .ownerAddPool _ => do
    w.l2.app.onlyOwner sender
    .ok w
  | .setPoolManager _poolManager => do
    w.l2.app.onlyOwner sender
    .ok (w.withProxy { w.proxy with poolManager := _poolManager })
  | .updateAuthorizedKeepers _keeper _authorized => do
    w.l2.app.onlyOwner sender
    let authorizedKeepers := update w.proxy.authorizedKeepers _keeper _authorized
    .ok (w.withProxy { w.proxy with authorizedKeepers })

/-- What happens around the contracts. -/
inductive Elsewhere : PoolManagers D → PoolManagers D → Prop
  | gauges {w : PoolManagers D} (b : Gauges) : Elsewhere w { w with gauges := b }
  /-- Others send messages, but not on the path of the first contract. -/
  | send {w : PoolManagers D} {p : Packet} (h : p.key ∉ w.l2.sent.map Packet.key)
      (hpath : ¬(p.srcChainId = w.l1.lzChainId ∧ p.srcAddress = w.path)) : Elsewhere w (w.sent p)

/-- The contracts were just deployed. -/
structure Deployed (w : PoolManagers D) : Prop where
  l2 : w.l2.Deployed
  isValidGauge : w.proxy.isValidGauge = fun _ => false

/-- The contracts are called by others. -/
def system : System (PoolManagers D) Address Call where
  now _ := 0
  IsCaller w sender := sender ≠ w.l1.self ∧ sender ≠ w.l2.app.self
  exec := exec keccak256 beyond
  Elsewhere := Elsewhere
  Deployed := Deployed

end PoolManagers

open PoolManagers

/-! ## Messages of gauges -/

theorem decodeGauges_encodeGauges {gs : List Address} (h : 32 * gs.length < 2 ^ 64) :
    decodeGauges (encodeGauges gs) = .ok gs := by
  have hword : wordAt (encodeGauges gs) 0 = 32 :=
    wordAt_of_lt (i := 0) (w := 6) (List.prefix_append _ _) rfl (by norm_num) (by norm_num)
  have harray : arrayAt 160 (encodeGauges gs) 32 =
      .ok (gs.map fun gauge : Address => Fin.val gauge) := by
    refine arrayAt_words [32] (by rwa [List.length_map]) (by norm_num) (by norm_num) fun n hn => ?_
    obtain ⟨a, -, rfl⟩ := List.mem_map.1 hn
    exact Fin.is_lt a
  have hlen : 32 ≤ (encodeGauges gs).length := by
    rw [encodeGauges, List.length_append, length_words]
    exact Nat.le_add_right _ _
  have hmap : (gs.map fun gauge : Address => Fin.val gauge).map addressOf = gs := by
    rw [List.map_map]
    exact List.map_id'' (fun a => addressOf_val a) gs
  unfold decodeGauges
  rw [require_of hlen, ok_bind, hword, harray, ok_bind, hmap]

/-- What a message validates, beside what was valid. -/
theorem isValidGauge_foldl (gs : List Address) (s : L2PoolManagerProxy) (g : Address) :
    (gs.foldl L2PoolManagerProxy.validate s).isValidGauge g = true ↔
      g ∈ gs ∨ s.isValidGauge g = true := by
  induction gs generalizing s with
  | nil => simp
  | cons a gs ih =>
    rw [List.foldl_cons, ih, List.mem_cons]
    unfold L2PoolManagerProxy.validate
    dsimp only
    rcases eq_or_ne g a with rfl | hne
    · simp
    · rw [update_of_ne hne]
      simp [hne]

/-! ## Approval -/

variable {D : Type}

/-- What is checked of a root gauge for the chain `c`. -/
structure Checked (w : PoolManagers D) (c : ChainId) (root : Address) : Prop where
  chain : c ≠ w.l1.lzChainId
  gaugeType : w.l1.gaugeTypes c ≠ ""
  hasGauge : w.gauges.hasGauge (w.l1.gaugeTypes c) root = true
  weight : 0 < w.gauges.get_gauge_weight root
  recipient : w.gauges.getRecipient root ≠ 0

/-- The calls of a run, with the states in which they were made. -/
abbrev Trace (D : Type) := List (PoolManagers D × Evm.Event Address PoolManagers.Call)

/-- A call of `addPools` for the chain of the second contract checked a root gauge whose
recipient is `g`. -/
def Approved (trace : Trace D) (g : Address) : Prop :=
  ∃ w e, (w, e) ∈ trace ∧ ∃ _gauges _adapterParams nonce,
    e.call = .addPools _gauges w.l2ChainId _adapterParams nonce ∧
      ∃ root ∈ _gauges, Checked w w.l2ChainId root ∧ w.gauges.getRecipient root = g

/-- The message of a call of `addPools` for the second contract. -/
def gaugesMessage (w : PoolManagers D) (_gauges : List Address) (nonce : ℕ) : Packet :=
  ⟨w.l1.lzChainId, w.path, nonce, encodeGauges (_gauges.map w.gauges.getRecipient)⟩

/-- The first contract trusts the second one. -/
def Linked (w : PoolManagers D) : Prop :=
  w.l1.trustedRemoteLookup w.l2ChainId = LzApp.pathOf w.l2.app.self w.l1.self

variable [DecidableEq D] [Zero D] {keccak256 : Bytes → D} {beyond : ℕ → Byte}
  {w w₀ w' : PoolManagers D} {trace : Trace D} {g : Address}

omit [DecidableEq D] [Zero D] in
theorem Approved.append (h : Approved trace g)
    (d : PoolManagers D × Evm.Event Address PoolManagers.Call) : Approved (trace ++ [d]) g := by
  obtain ⟨w, e, hmem, h⟩ := h
  exact ⟨w, e, List.mem_append_left _ hmem, h⟩

omit [Zero D] [DecidableEq D] in
theorem dstGauge_eq_ok {c : ChainId} {root : Address}
    (h : w.l1.dstGauge w.gauges c root = .ok g) :
    Checked w c root ∧ g = w.gauges.getRecipient root := by
  obtain ⟨_, hcheck, h⟩ := bind_eq_ok.1 h
  obtain ⟨hne, h⟩ := require_bind_eq_ok.1 h
  obtain ⟨hchain, hcheck⟩ := require_bind_eq_ok.1 hcheck
  obtain ⟨htype, hcheck⟩ := require_bind_eq_ok.1 hcheck
  obtain ⟨hhas, hcheck⟩ := require_bind_eq_ok.1 hcheck
  exact ⟨⟨hchain, htype, hhas, require_eq_ok.1 hcheck, hne⟩, (Except.ok.inj h).symm⟩

omit [Zero D] [DecidableEq D] in
/-- A call of `addPools` checks all its root gauges, and sends their recipients. -/
theorem addPools_spec {_gauges : List Address} {c : ChainId} {_adapterParams : Bytes} {o : Outgoing}
    (h : w.l1.addPools beyond w.gauges _gauges c _adapterParams = .ok o) :
    32 * _gauges.length < 2 ^ 64 ∧ (∀ root ∈ _gauges, Checked w c root) ∧
      o = ⟨c, w.l1.trustedRemoteLookup c, encodeGauges (_gauges.map w.gauges.getRecipient)⟩ := by
  obtain ⟨-, -, h⟩ := bind_eq_ok.1 h
  obtain ⟨_, halloc, h⟩ := bind_eq_ok.1 h
  obtain ⟨gs, hgs, h⟩ := bind_eq_ok.1 h
  obtain ⟨-, h⟩ := require_bind_eq_ok.1 h
  obtain ⟨-, -, h⟩ := bind_eq_ok.1 h
  cases h
  obtain ⟨hchecked, rfl⟩ := map_of_mapM (fun _ _ => dstGauge_eq_ok) hgs
  refine ⟨?_, hchecked, rfl⟩
  unfold bytesAt.allocate at halloc
  by_contra hge
  rw [if_neg hge] at halloc
  cases halloc

/-- What a call of `addPools` does : for the chain of a second contract that is trusted it sends
the message of the call. -/
theorem exec_addPools {sender : Address} {_gauges : List Address} {c : ChainId}
    {_adapterParams : Bytes} {nonce : ℕ}
    (h : exec keccak256 beyond w sender (.addPools _gauges c _adapterParams nonce) = .ok w') :
    32 * _gauges.length < 2 ^ 64 ∧ (∀ root ∈ _gauges, Checked w c root) ∧
      (c = w.l2ChainId ∧ Linked w ∧ (gaugesMessage w _gauges nonce).key ∉ w.l2.sent.map Packet.key ∧
          w' = w.sent (gaugesMessage w _gauges nonce) ∨
        ¬(c = w.l2ChainId ∧ Linked w) ∧ w' = w) := by
  obtain ⟨o, ho, h⟩ := bind_eq_ok.1 h
  obtain ⟨hlen, hchecked, rfl⟩ := addPools_spec ho
  refine ⟨hlen, hchecked, ?_⟩
  dsimp only at h
  by_cases hdst : c = w.l2ChainId ∧
      w.l1.trustedRemoteLookup c = LzApp.pathOf w.l2.app.self w.l1.self
  · rw [if_pos hdst] at h
    obtain ⟨hkey, h⟩ := require_bind_eq_ok.1 h
    have hw' := (Except.ok.inj h).symm
    obtain ⟨rfl, hlinked⟩ := hdst
    exact .inl ⟨rfl, hlinked, hkey, hw'⟩
  · rw [if_neg hdst] at h
    cases h
    exact .inr ⟨fun hc => hdst ⟨hc.1, hc.1 ▸ hc.2⟩, rfl⟩

/-! ## Provenance -/

/-- The second contract is one of the runs of deliveries. The messages of the first one were
sent, and what was sent on its path was approved; what is valid was in a message. -/
structure Provenance (keccak256 : Bytes → D) (trace : Trace D) (w : PoolManagers D) : Prop where
  l2 : ∃ log₂, (Delivery.system keccak256 receive).Reachable log₂ w.l2 ∧
    ∀ e ∈ log₂, ∃ d ∈ trace, d.2 = ⟨e.time, e.sender, .l2 e.call⟩
  carried : ∀ d ∈ trace, ∀ _gauges _adapterParams nonce,
    d.2.call = .addPools _gauges d.1.l2ChainId _adapterParams nonce → Linked d.1 →
      gaugesMessage d.1 _gauges nonce ∈ w.l2.sent
  sent : ∀ p ∈ w.l2.sent, p.srcChainId = w.l1.lzChainId → p.srcAddress = w.path →
    ∃ gs, p.payload = encodeGauges gs ∧ 32 * gs.length < 2 ^ 64 ∧ ∀ g ∈ gs, Approved trace g
  valid : ∀ g, w.proxy.isValidGauge g = true ↔
    ∃ p ∈ w.l2.executed, ∃ gs, decodeGauges p.payload = .ok gs ∧ g ∈ gs

namespace Provenance

theorem deployed (h : PoolManagers.Deployed w) : Provenance keccak256 [] w where
  l2 := ⟨[], ⟨w.l2, h.l2, .refl⟩, nofun⟩
  carried := nofun
  sent p hp := by
    rw [h.l2.sent] at hp
    cases hp
  valid g := by
    rw [h.isValidGauge, h.l2.executed]
    simp

/-- A call that sends nothing to the second contract. -/
theorem append (h : Provenance keccak256 trace w)
    (d : PoolManagers D × Evm.Event Address PoolManagers.Call)
    (hd : ∀ _gauges _adapterParams nonce,
      d.2.call = .addPools _gauges d.1.l2ChainId _adapterParams nonce → ¬Linked d.1) :
    Provenance keccak256 (trace ++ [d]) w where
  l2 := by
    obtain ⟨log₂, hlog₂, hmem⟩ := h.l2
    refine ⟨log₂, hlog₂, fun e he => ?_⟩
    obtain ⟨d', hd', heq⟩ := hmem e he
    exact ⟨d', List.mem_append_left _ hd', heq⟩
  carried d' hd' gs params nonce hcall hlinked := by
    rcases List.mem_append.1 hd' with hd' | hd'
    · exact h.carried d' hd' gs params nonce hcall hlinked
    · rw [List.mem_singleton.1 hd'] at hcall hlinked
      exact absurd hlinked (hd gs params nonce hcall)
  sent p hp hchain hpath := by
    obtain ⟨gs, hpayload, hlen, happroved⟩ := h.sent p hp hchain hpath
    exact ⟨gs, hpayload, hlen, fun g hg => (happroved g hg).append d⟩
  valid := h.valid

/-- What does not concern the second contract. -/
theorem congr (h : Provenance keccak256 trace w) (hl2 : w'.l2 = w.l2)
    (hself : w'.l1.self = w.l1.self) (hchain : w'.l1.lzChainId = w.l1.lzChainId) :
    Provenance keccak256 trace w' := by
  obtain ⟨l1, gauges, chain, l2⟩ := w'
  cases hl2
  have hpath : PoolManagers.path ⟨l1, gauges, chain, w.l2⟩ = w.path := by
    unfold PoolManagers.path
    dsimp only at hself ⊢
    rw [hself]
  refine ⟨h.l2, h.carried, fun p hp hc ha => ?_, h.valid⟩
  rw [hpath] at ha
  exact h.sent p hp (hc.trans hchain) ha

/-- What the owner of the second contract sets. -/
theorem withProxy (h : Provenance keccak256 trace w) {s : L2PoolManagerProxy}
    (hvalid : s.isValidGauge = w.proxy.isValidGauge) :
    Provenance keccak256 trace (w.withProxy s) where
  l2 := by
    obtain ⟨log₂, ⟨w₀, h₀, hsteps⟩, hmem⟩ := h.l2
    exact ⟨log₂, ⟨w₀, h₀, .elsewhere hsteps (.heir s)⟩, hmem⟩
  carried := h.carried
  sent := h.sent
  valid g := by
    show s.isValidGauge g = true ↔ _
    rw [hvalid]
    exact h.valid g

/-- A message of others. -/
theorem send (h : Provenance keccak256 trace w) {p : Packet}
    (hkey : p.key ∉ w.l2.sent.map Packet.key)
    (hpath : ¬(p.srcChainId = w.l1.lzChainId ∧ p.srcAddress = w.path)) :
    Provenance keccak256 trace (w.sent p) where
  l2 := by
    obtain ⟨log₂, ⟨w₀, h₀, hsteps⟩, hmem⟩ := h.l2
    exact ⟨log₂, ⟨w₀, h₀, .elsewhere hsteps (.send hkey)⟩, hmem⟩
  carried d hd gs params nonce hcall hlinked :=
    List.mem_cons_of_mem p (h.carried d hd gs params nonce hcall hlinked)
  sent q hq hc ha := by
    rcases List.mem_cons.1 hq with rfl | hq
    · exact absurd ⟨hc, ha⟩ hpath
    · exact h.sent q hq hc ha
  valid := h.valid

/-- The message of a call of `addPools`. -/
theorem addPools (h : Provenance keccak256 trace w) {e : Evm.Event Address PoolManagers.Call}
    {_gauges : List Address} {_adapterParams : Bytes} {nonce : ℕ}
    (he : e.call = .addPools _gauges w.l2ChainId _adapterParams nonce)
    (hkey : (gaugesMessage w _gauges nonce).key ∉ w.l2.sent.map Packet.key)
    (hlen : 32 * _gauges.length < 2 ^ 64)
    (hchecked : ∀ root ∈ _gauges, Checked w w.l2ChainId root) :
    Provenance keccak256 (trace ++ [(w, e)]) (w.sent (gaugesMessage w _gauges nonce)) where
  l2 := by
    obtain ⟨log₂, ⟨w₀, h₀, hsteps⟩, hmem⟩ := h.l2
    refine ⟨log₂, ⟨w₀, h₀, .elsewhere hsteps (.send hkey)⟩, fun e' he' => ?_⟩
    obtain ⟨d, hd, heq⟩ := hmem e' he'
    exact ⟨d, List.mem_append_left _ hd, heq⟩
  carried d hd gs params nonce' hcall hlinked := by
    rcases List.mem_append.1 hd with hd | hd
    · exact List.mem_cons_of_mem _ (h.carried d hd gs params nonce' hcall hlinked)
    · rw [List.mem_singleton.1 hd] at hcall ⊢
      cases he.symm.trans hcall
      exact List.mem_cons_self
  sent q hq hc ha := by
    rcases List.mem_cons.1 hq with rfl | hq
    · refine ⟨_, rfl, by rwa [List.length_map], fun g hg => ?_⟩
      obtain ⟨root, hroot, hrecipient⟩ := List.mem_map.1 hg
      exact ⟨w, e, List.mem_append_right _ (List.mem_singleton_self _), _gauges, _adapterParams,
        nonce, he, root, hroot, hchecked root hroot, hrecipient⟩
    · obtain ⟨gs, hpayload, hlen', happroved⟩ := h.sent q hq hc ha
      exact ⟨gs, hpayload, hlen', fun g hg => (happroved g hg).append _⟩
  valid := h.valid

theorem _nonblockingLzReceive_ok {p : Packet} {s s' : L2PoolManagerProxy}
    (h : L2PoolManagerProxy._nonblockingLzReceive p s = .ok s') :
    ∃ gs, decodeGauges p.payload = .ok gs ∧
      ∀ g, s'.isValidGauge g = true ↔ g ∈ gs ∨ s.isValidGauge g = true := by
  obtain ⟨gs, hgs, h⟩ := bind_eq_ok.1 h
  cases h
  exact ⟨gs, hgs, isValidGauge_foldl gs s⟩

/-- A call of what the second contract inherits. -/
theorem call (hK : CollisionFree keccak256) (h : Provenance keccak256 trace w) {sender : Address}
    {c : Delivery.Call} {l2 : Delivery D L2PoolManagerProxy} (hsender : sender ≠ w.l2.app.self)
    (hx : w.l2.exec keccak256 receive sender c = .ok l2) :
    Provenance keccak256 (trace ++ [(w, ⟨0, sender, .l2 c⟩)]) { w with l2 } := by
  have happ := h.append (w, ⟨0, sender, .l2 c⟩) nofun
  obtain ⟨log₂, ⟨w₀, h₀, hsteps⟩, hmem⟩ := h.l2
  obtain ⟨hsent, hself, hheir⟩ := (effect_of_exec hK hsender hx).processes
  refine ⟨⟨log₂ ++ [⟨0, sender, c⟩], ⟨w₀, h₀, .call hsteps hsender hx⟩, fun e he => ?_⟩,
    fun d hd gs params nonce hcall hlinked => ?_, fun p hp hchain hpath => ?_, fun g => ?_⟩
  · rcases List.mem_append.1 he with he | he
    · obtain ⟨d, hd, heq⟩ := hmem e he
      exact ⟨d, List.mem_append_left _ hd, heq⟩
    · rw [List.mem_singleton.1 he]
      exact ⟨_, List.mem_append_right _ (List.mem_singleton_self _), rfl⟩
  · exact hsent.symm ▸ happ.carried d hd gs params nonce hcall hlinked
  · have hpath' : PoolManagers.path { w with l2 } = w.path := by
      unfold PoolManagers.path
      dsimp only
      rw [hself]
    rw [hpath'] at hpath
    exact happ.sent p (hsent ▸ hp) hchain hpath
  · show l2.app.heir.1.isValidGauge g = true ↔ ∃ p ∈ l2.app.heir.2, _
    rcases hheir with hsame | ⟨p, s, hs, hnew⟩
    · rw [hsame]
      exact h.valid g
    · obtain ⟨gs, hgs, hvalid⟩ := _nonblockingLzReceive_ok hs
      have hold := h.valid g
      rw [hnew, hvalid]
      constructor
      · rintro (hg | hg)
        · exact ⟨p, List.mem_append_right _ (List.mem_singleton_self p), gs, hgs, hg⟩
        · obtain ⟨q, hq, hqg⟩ := hold.1 hg
          exact ⟨q, List.mem_append_left _ hq, hqg⟩
      · rintro ⟨q, hq, gs', hgs', hg⟩
        rcases List.mem_append.1 hq with hq | hq
        · exact Or.inr (hold.2 ⟨q, hq, gs', hgs', hg⟩)
        · rw [List.mem_singleton.1 hq, hgs] at hgs'
          cases hgs'
          exact Or.inl hg

/-- Every step of a run. -/
theorem step (hK : CollisionFree keccak256) (h : Provenance keccak256 trace w) {sender : Address}
    {c : PoolManagers.Call} (hsender : sender ≠ w.l2.app.self)
    (hx : exec keccak256 beyond w sender c = .ok w') :
    Provenance keccak256 (trace ++ [(w, ⟨0, sender, c⟩)]) w' := by
  have hquiet (hne : ∀ gs params nonce, c ≠ .addPools gs w.l2ChainId params nonce) :
      Provenance keccak256 (trace ++ [(w, ⟨0, sender, c⟩)]) w :=
    h.append _ fun gs params nonce hcall _ => hne gs params nonce hcall
  cases c with
  | addPools gs dst params nonce =>
    obtain ⟨hlen, hchecked, ⟨rfl, -, hkey, rfl⟩ | ⟨hno, rfl⟩⟩ := exec_addPools hx
    · exact h.addPools rfl hkey hlen hchecked
    · refine h.append _ fun gs' params' nonce' hcall hlinked => hno ⟨?_, hlinked⟩
      exact (PoolManagers.Call.addPools.inj hcall).2.1
  | setGaugeType c t =>
    obtain ⟨l1, hl1, hx⟩ := bind_eq_ok.1 hx
    cases hx
    obtain ⟨-, hl1⟩ := require_bind_eq_ok.1 hl1
    cases hl1
    exact (hquiet nofun).congr rfl rfl rfl
  | setTrustedRemote c path =>
    obtain ⟨s, hs, hx⟩ := bind_eq_ok.1 hx
    cases hx
    obtain ⟨-, hs⟩ := require_bind_eq_ok.1 hs
    cases hs
    exact (hquiet nofun).congr rfl rfl rfl
  | setMinDstGas c t n =>
    obtain ⟨s, hs, hx⟩ := bind_eq_ok.1 hx
    cases hx
    obtain ⟨-, hs⟩ := require_bind_eq_ok.1 hs
    obtain ⟨-, hs⟩ := require_bind_eq_ok.1 hs
    cases hs
    exact (hquiet nofun).congr rfl rfl rfl
  | l2 c =>
    obtain ⟨l2, hl2, hx⟩ := bind_eq_ok.1 hx
    cases hx
    exact h.call hK hsender hl2
  | addPool g =>
    obtain ⟨_, -, hx⟩ := bind_eq_ok.1 hx
    cases hx
    exact hquiet nofun
  | ownerAddPool g =>
    obtain ⟨-, hx⟩ := require_bind_eq_ok.1 hx
    cases hx
    exact hquiet nofun
  | setPoolManager a =>
    obtain ⟨-, hx⟩ := require_bind_eq_ok.1 hx
    cases hx
    exact (hquiet nofun).withProxy rfl
  | updateAuthorizedKeepers k b =>
    obtain ⟨-, hx⟩ := require_bind_eq_ok.1 hx
    cases hx
    exact (hquiet nofun).withProxy rfl

theorem of_traced (hK : CollisionFree keccak256) (h₀ : PoolManagers.Deployed w₀)
    (h : (system keccak256 beyond).Traced w₀ trace w) : Provenance keccak256 trace w := by
  induction h with
  | refl => exact .deployed h₀
  | elsewhere _ he ih =>
    cases he with
    | gauges b => exact ih.congr rfl rfl rfl
    | send hkey hpath => exact ih.send hkey hpath
  | call _ hc hx ih => exact ih.step hK hc.2 hx

end Provenance

/-! ## Results -/

/-- The owner of the second contract has trusted the first contract only. -/
def TrustsOnlyL1 (log : List (Evm.Event Address PoolManagers.Call)) (w : PoolManagers D) : Prop :=
  ∀ e ∈ log,
    (∀ c path, e.call = .l2 (.setTrustedRemote c path) → c = w.l1.lzChainId ∧ path = w.path) ∧
    ∀ c a, e.call = .l2 (.setTrustedRemoteAddress c a) →
      c = w.l1.lzChainId ∧ a ++ encodePacked w.l2.app.self = w.path

/-- What was executed was sent by the first contract. -/
theorem trusted_of_executed (hK : CollisionFree keccak256)
    (ht : TrustsOnlyL1 (trace.map Prod.snd) w) {log₂ : List (Evm.Event Address Delivery.Call)}
    (hlog₂ : (Delivery.system keccak256 receive).Reachable log₂ w.l2)
    (hmem : ∀ e ∈ log₂, ∃ d ∈ trace, d.2 = ⟨e.time, e.sender, .l2 e.call⟩) {p : Packet}
    (hp : p ∈ w.l2.executed) : p.srcChainId = w.l1.lzChainId ∧ p.srcAddress = w.path := by
  obtain ⟨e, he, -, hcall⟩ := (FromTrusted.of_reachable hK hlog₂).sourced.1 p hp
  obtain ⟨d, hd, heq⟩ := hmem e he
  have htrust := ht d.2 (List.mem_map_of_mem hd)
  rw [heq] at htrust
  rcases hcall with hcall | ⟨a, hcall, ha⟩
  · exact htrust.1 _ _ (congrArg PoolManagers.Call.l2 hcall)
  · obtain ⟨hc, hpath⟩ := htrust.2 _ _ (congrArg PoolManagers.Call.l2 hcall)
    exact ⟨hc, ha.trans hpath⟩

/-- A gauge that is valid was in a message of the first contract. -/
theorem approved_of_valid (hK : CollisionFree keccak256) (h₀ : PoolManagers.Deployed w₀)
    (h : (system keccak256 beyond).Traced w₀ trace w) (ht : TrustsOnlyL1 (trace.map Prod.snd) w)
    (hg : w.proxy.isValidGauge g = true) : Approved trace g := by
  have hprov := Provenance.of_traced hK h₀ h
  obtain ⟨p, hp, gs, hgs, hmem⟩ := (hprov.valid g).1 hg
  obtain ⟨log₂, hlog₂, hfrom⟩ := hprov.l2
  obtain ⟨hc, ha⟩ := trusted_of_executed hK ht hlog₂ hfrom hp
  have hsent : p ∈ w.l2.sent := (Inv.of_reachable hK hlog₂).accounted.executed_sent p hp
  obtain ⟨gs', hpayload, hlen, happroved⟩ := hprov.sent p hsent hc ha
  rw [hpayload, decodeGauges_encodeGauges hlen] at hgs
  cases hgs
  exact happroved g hmem

/-- Whatever others send, and in whatever order messages arrive, fail and are retried : a gauge is
valid only if a call of `addPools` of the run checked, in the state it was made in, a root gauge
whose recipient it is, and keepers can add pools only for such gauges. -/
theorem keeper_adds_approved (hK : CollisionFree keccak256) (h₀ : PoolManagers.Deployed w₀)
    (h : (system keccak256 beyond).Traced w₀ trace w)
    (ht : TrustsOnlyL1 (trace.map Prod.snd) w) :
    (∀ g, w.proxy.isValidGauge g = true → Approved trace g) ∧
    ∀ sender g w', exec keccak256 beyond w sender (.addPool g) = .ok w' →
      w.proxy.authorizedKeepers sender = true ∧ Approved trace g := by
  refine ⟨fun g hg => approved_of_valid hK h₀ h ht hg, fun sender g w' hx => ?_⟩
  obtain ⟨_, hx, -⟩ := bind_eq_ok.1 hx
  obtain ⟨hkeeper, hx⟩ := require_bind_eq_ok.1 hx
  exact ⟨hkeeper, approved_of_valid hK h₀ h ht (require_bind_eq_ok.1 hx).1⟩

/-- A root gauge, the account 20, whose recipient is the account 30. -/
def sampleGauges : Gauges where
  hasGauge t _ := t = "Optimism"
  get_gauge_weight _ := 5
  getRecipient _ := 30

/-- The contracts are the accounts 8 and 9, and nobody is trusted by the second one. -/
def justDeployed : PoolManagers (WithZero Bytes) where
  l1 :=
    { self := 8
      owner := 1
      lzEndpoint := 2
      trustedRemoteLookup := fun _ => LzApp.pathOf 9 8
      minDstGasLookup := fun _ _ => 200
      payloadSizeLimitLookup := fun _ => 0
      lzChainId := 101
      gaugeTypes := fun _ => "Optimism" }
  gauges := sampleGauges
  l2ChainId := 110
  l2 :=
    { app :=
        { LzApp.untrusting with
          failedMessages := fun _ => 0
          heir := (⟨50, fun _ => false, fun a => a = 6⟩, []) }
      sent := []
      inFlight := []
      dropped := [] }

/-- Type 1, and 1000 gas. -/
def sampleParams : Bytes :=
  bytesOf 2 1 ++ bytesOf 32 1000

/-- The message of a call of `addPools` for the root gauge. -/
def gaugeMessage : Packet :=
  ⟨101, LzApp.pathOf 8 9, 1, encodeGauges [30]⟩

instance (w : PoolManagers (WithZero Bytes)) (a : Address) :
    Decidable ((system LzApp.hashOf beyond).IsCaller w a) :=
  inferInstanceAs (Decidable (_ ∧ _))

instance (w : PoolManagers D) : Decidable (Linked w) :=
  inferInstanceAs (Decidable (_ = _))

/-- The first contract is trusted, and the account 5 has the gauge sent. Its message arrives. -/
def gaugeSent : List (Evm.Event Address PoolManagers.Call) :=
  [⟨0, 1, .l2 (.setTrustedRemote 101 (LzApp.pathOf 8 9))⟩,
    ⟨0, 5, .addPools [20] 110 sampleParams 1⟩, ⟨0, 2, .l2 (.lzReceive gaugeMessage 1)⟩]

/-- The trace of a run of the two contracts. -/
def traceFrom (beyond : ℕ → Byte) (log : List (Evm.Event Address PoolManagers.Call)) :
    Trace (WithZero Bytes) :=
  (system LzApp.hashOf beyond).traceOf (fun w _ => w) justDeployed log

theorem justDeployed_deployed : PoolManagers.Deployed justDeployed :=
  ⟨⟨rfl, rfl, rfl, rfl, rfl, rfl⟩, rfl⟩

theorem traced_of_play {w : PoolManagers (WithZero Bytes)}
    {log : List (Evm.Event Address PoolManagers.Call)}
    (h : (system LzApp.hashOf beyond).play (fun w _ => w) justDeployed log = .ok w) :
    (system LzApp.hashOf beyond).Traced justDeployed (traceFrom beyond log) w :=
  System.Traced.play (fun w _ _ => PoolManagers.Elsewhere.gauges w.gauges) h

/-- A keeper, the account 6, adds the pool of the gauge. -/
theorem keeper_adds_approved_run : ∃ w w' : PoolManagers (WithZero Bytes),
    exec LzApp.hashOf (fun _ => 0) w 6 (.addPool 30) = .ok w' ∧
    Approved (traceFrom (fun _ => 0) gaugeSent) 30 := by
  have hstate : ((system LzApp.hashOf fun _ => 0).play (fun w _ => w) justDeployed gaugeSent).map
      (fun w => (decide (w.l1.lzChainId = 101 ∧ w.path = LzApp.pathOf 8 9),
        (exec LzApp.hashOf (fun _ => 0) w 6 (.addPool 30)).returns)) = .ok (true, true) := by
    decide +kernel
  obtain ⟨w, hw, hstate⟩ := Tx.map_eq_ok.1 hstate
  obtain ⟨hpath, hreturns⟩ := Prod.mk.inj hstate
  obtain ⟨hchain, hpath⟩ := of_decide_eq_true hpath
  have hlog : (traceFrom (fun _ => 0) gaugeSent).map Prod.snd = gaugeSent := by decide +kernel
  have htrust : TrustsOnlyL1 ((traceFrom (fun _ => 0) gaugeSent).map Prod.snd) w := by
    rw [hlog]
    intro e he
    simp only [gaugeSent, List.mem_cons, List.not_mem_nil, or_false] at he
    rcases he with rfl | rfl | rfl
    · refine ⟨fun c path hcall => ?_, fun c a hcall => by cases hcall⟩
      cases hcall
      exact ⟨hchain.symm, hpath.symm⟩
    · exact ⟨fun c path hcall => (by cases hcall), fun c a hcall => by cases hcall⟩
    · exact ⟨fun c path hcall => (by cases hcall), fun c a hcall => by cases hcall⟩
  obtain ⟨w', hw'⟩ := Tx.exists_ok hreturns
  exact ⟨w, w', hw', ((keeper_adds_approved LzApp.collisionFree_hashOf justDeployed_deployed
    (traced_of_play hw) htrust).2 6 30 w' hw').2⟩

/-- What is approved is not lost : a call of `addPools` for the second contract has checked all its
root gauges and sent their recipients, and these are valid, or the message is on its way, or the
owner dropped it, or it is stored, and then a retry by anybody makes them valid. -/
theorem approved_gets_through (hK : CollisionFree keccak256) (h₀ : PoolManagers.Deployed w₀)
    (h : (system keccak256 beyond).Traced w₀ trace w) {w₁ : PoolManagers D}
    {e : Evm.Event Address PoolManagers.Call} (hmem : (w₁, e) ∈ trace) {_gauges : List Address}
    {_adapterParams : Bytes} {nonce : ℕ}
    (hcall : e.call = .addPools _gauges w₁.l2ChainId _adapterParams nonce) (hlinked : Linked w₁) :
    (∀ root ∈ _gauges, Checked w₁ w₁.l2ChainId root) ∧
    gaugesMessage w₁ _gauges nonce ∈ w.l2.sent ∧
    ((∀ root ∈ _gauges, w.proxy.isValidGauge (w₁.gauges.getRecipient root) = true) ∨
      gaugesMessage w₁ _gauges nonce ∈ w.l2.inFlight ∨
      gaugesMessage w₁ _gauges nonce ∈ w.l2.dropped ∨
      ∀ sender depth, ∃ w', exec keccak256 beyond w sender
          (.l2 (.retryMessage (gaugesMessage w₁ _gauges nonce) (depth + 1))) = .ok w' ∧
        ∀ root ∈ _gauges, w'.proxy.isValidGauge (w₁.gauges.getRecipient root) = true) := by
  have hprov := Provenance.of_traced hK h₀ h
  obtain ⟨v, hv⟩ := h.exec_eq_ok hmem
  have hv : exec keccak256 beyond w₁ e.sender
      (.addPools _gauges w₁.l2ChainId _adapterParams nonce) = .ok v := hcall ▸ hv
  obtain ⟨hlen, hchecked, -⟩ := exec_addPools hv
  have hsent := hprov.carried _ hmem _gauges _adapterParams nonce hcall hlinked
  refine ⟨hchecked, hsent, ?_⟩
  set p := gaugesMessage w₁ _gauges nonce with hp
  have hdecode : decodeGauges p.payload = .ok (_gauges.map w₁.gauges.getRecipient) := by
    refine decodeGauges_encodeGauges ?_
    rwa [List.length_map]
  obtain ⟨log₂, hlog₂, -⟩ := hprov.l2
  have hplace := (Inv.of_reachable hK hlog₂).perm.mem_iff.2 hsent
  simp only [List.mem_append] at hplace
  obtain ((hexecuted | hfailed) | hflight) | hdropped := hplace
  · exact Or.inl fun root hroot => (hprov.valid _).2
      ⟨p, hexecuted, _, hdecode, List.mem_map_of_mem hroot⟩
  · refine Or.inr (Or.inr (Or.inr fun sender depth => ?_))
    have hreceive : L2PoolManagerProxy._nonblockingLzReceive p w.proxy =
        .ok ((_gauges.map w₁.gauges.getRecipient).foldl L2PoolManagerProxy.validate w.proxy) := by
      unfold L2PoolManagerProxy._nonblockingLzReceive
      rw [hdecode, ok_bind]
    have hretry := exec_retryMessage hK (mem_failed.1 hfailed).2 hreceive sender depth
    have hexec := congrArg (· >>= fun l2 => (.ok { w with l2 } : Tx (PoolManagers D))) hretry
    exact ⟨_, hexec, fun root hroot =>
      (isValidGauge_foldl _ w.proxy _).2 (Or.inl (List.mem_map_of_mem hroot))⟩
  · exact Or.inr (Or.inl hflight)
  · exact Or.inr (Or.inr (Or.inl hdropped))

/-- The message arrives with too little gas, and is retried by the account 7. -/
theorem approved_gets_through_run : ∃ w w' : PoolManagers (WithZero Bytes),
    w.proxy.isValidGauge 30 = false ∧
    exec LzApp.hashOf (fun _ => 0) w 7 (.l2 (.retryMessage gaugeMessage 1)) = .ok w' ∧
    w'.proxy.isValidGauge 30 = true := by
  let log : List (Evm.Event Address PoolManagers.Call) :=
    [⟨0, 1, .l2 (.setTrustedRemote 101 (LzApp.pathOf 8 9))⟩,
      ⟨0, 5, .addPools [20] 110 sampleParams 1⟩, ⟨0, 2, .l2 (.lzReceive gaugeMessage 0)⟩]
  have hstate : ((system LzApp.hashOf fun _ => 0).play (fun w _ => w) justDeployed log).map
      (fun w => (decide (gaugeMessage ∉ w.l2.inFlight ∧ gaugeMessage ∉ w.l2.dropped),
        w.proxy.isValidGauge 30)) = .ok (true, false) := by decide +kernel
  obtain ⟨w, hw, hstate⟩ := Tx.map_eq_ok.1 hstate
  obtain ⟨hplace, hvalid⟩ := Prod.mk.inj hstate
  obtain ⟨hflight, hdropped⟩ := of_decide_eq_true hplace
  -- the state in which `addPools` is called
  let calls := traceFrom (fun _ => 0) log
  have hlen : 1 < calls.length := by decide +kernel
  obtain ⟨d, hd⟩ : ∃ d, calls[1]? = some d := ⟨_, List.getElem?_eq_getElem hlen⟩
  have hmem : (d.1, d.2) ∈ calls := List.mem_of_getElem? hd
  have hcalled : (calls[1]?).map (fun d => (d.2.call, d.1.l2ChainId, decide (Linked d.1),
      gaugesMessage d.1 [20] 1, d.1.gauges.getRecipient 20)) =
      some (.addPools [20] 110 sampleParams 1, 110, true, gaugeMessage, 30) := by decide +kernel
  rw [hd] at hcalled
  simp only [Option.map_some, Option.some.injEq, Prod.mk.injEq, decide_eq_true_eq] at hcalled
  obtain ⟨hcall, hchain, hlinked, hmessage, hrecipient⟩ := hcalled
  rw [← hchain] at hcall
  obtain ⟨-, -, hthrough⟩ := approved_gets_through LzApp.collisionFree_hashOf
    justDeployed_deployed (traced_of_play hw) hmem hcall hlinked
  rw [hmessage] at hthrough
  rcases hthrough with hall | hmem | hmem | hretry
  · have := hall 20 (by simp)
    rw [hrecipient, hvalid] at this
    cases this
  · exact absurd hmem hflight
  · exact absurd hmem hdropped
  · obtain ⟨w', hw', hnow⟩ := hretry 7 0
    exact ⟨w, w', hvalid, hw', hrecipient ▸ hnow 20 (by simp)⟩

end Aura.Sidechain
