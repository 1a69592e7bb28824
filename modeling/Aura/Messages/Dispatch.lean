import Aura.Bridge.AuraProxy
import Aura.Bridge.AuraBalProxy
import Aura.Messages.CrossChainMessages
import Aura.Sidechain.Specs

/-!
# Messages : dispatch

The contracts send bytes, and the receivers find out from the bytes what to do. The models of
the bridges and of the coordinators pass on what a payload encodes; here they are shown to be
right about it. What a contract sends fits in the encoding (`Sent`), and a receiver of what
fits does what its model does with the payload, or nothing when the payload is not for it.
-/

open Evm Evm.Abi

namespace Aura

open Bridge (Bytes ChainId ProxyOft Heir LockTarget AuraProxy AuraBalProxy encodePacked)
open CrossChainMessages OftCore
open Sidechain (L1Coordinator L2Coordinator Booster)

/-! ## Payloads -/

namespace Bridge

/-- The bytes of a payload. -/
def Payload.encode : Payload → Bytes
  | .send _toAddress amount => encodeSend _toAddress amount
  | .lock sender amount => encodeLock sender amount

/-- The parts of a payload are values of their types. The ABI coder takes no longer `bytes`. -/
def Payload.Fits : Payload → Prop
  | .send _toAddress amount => _toAddress.length < 2 ^ 64 ∧ amount < 2 ^ 256
  | .lock _ amount => amount < 2 ^ 256

end Bridge

namespace Sidechain

/-- The bytes of a payload. -/
def Payload.encode : Payload → Bytes
  | .fees amount => encodeFees amount
  | .feesCallback cvxAmount => encodeFeesCallback cvxAmount

/-- The amount is a `uint256`. -/
def Payload.Fits : Payload → Prop
  | .fees amount => amount < 2 ^ 256
  | .feesCallback cvxAmount => cvxAmount < 2 ^ 256

end Sidechain

/-! ## Receivers -/

namespace Messages

variable (beyond : ℕ → Byte)

/-- `_sendAck` of `PausableProxyOFT`. -/
def PausableProxyOft._sendAck {σ : Type} [Heir σ] (p : ProxyOft σ) (_srcChainId : ChainId)
    (_payload : Bytes) : Tx (ProxyOft σ) := do
  let r ← decodeSend _payload
  p._sendAck _srcChainId r.1 r.2

/-- The locker of `AuraProxyOFT`. -/
def AuraProxyOft.locker : LockTarget AuraProxy where
  isShutdown s := s.world.locker.config.isShutdown
  lock := AuraProxy.lock

/-- `_nonblockingLzReceive` of `AuraProxyOFT`. -/
def AuraProxyOft._nonblockingLzReceive (p : ProxyOft AuraProxy) (_srcChainId : ChainId)
    (_payload : Bytes) : Tx (ProxyOft AuraProxy) :=
  if isCustomMessage beyond _payload = true then do
    let messageType ← getMessageType beyond _payload
    if messageType = .lock then do
      let r ← decodeLock _payload
      p._lockFor AuraProxyOft.locker _srcChainId r.1 r.2
    else .ok p
  else OftCore._nonblockingLzReceive beyond (PausableProxyOft._sendAck p _srcChainId) _payload

/-- `_nonblockingLzReceive` of `L1Coordinator`. -/
def L1Coordinator._nonblockingLzReceive {β : Type} (s : L1Coordinator β) (_srcChainId : ChainId)
    (_payload : Bytes) : Tx (L1Coordinator β) :=
  if isCustomMessage beyond _payload = true then do
    let messageType ← getMessageType beyond _payload
    if messageType = .fees then do
      let feeAmount ← decodeFees _payload
      s._notifyFees _srcChainId feeAmount
    else .ok s
  else .ok s

/-- `_nonblockingLzReceive` of `L2Coordinator`. -/
def L2Coordinator._nonblockingLzReceive (s : L2Coordinator) (_payload : Bytes) : Tx L2Coordinator :=
  if isCustomMessage beyond _payload = true then do
    let messageType ← getMessageType beyond _payload
    if messageType = .feesCallback then do
      let cvxAmount ← decodeFeesCallback _payload
      let accAuraRewards ← AuraMath.add s.accAuraRewards cvxAmount
      .ok { s with accAuraRewards }
    else .ok s
  else .ok s

/-- `_nonblockingLzReceive` of `AuraBalProxyOFT`, which is that of `OFTCore`. -/
def AuraBalProxyOft._nonblockingLzReceive (p : ProxyOft AuraBalProxy) (_srcChainId : ChainId)
    (_payload : Bytes) : Tx (ProxyOft AuraBalProxy) :=
  OftCore._nonblockingLzReceive beyond (PausableProxyOft._sendAck p _srcChainId) _payload

/-- `_nonblockingLzReceive` of the token of a sidechain, which is that of `OFTCore`. -/
def Oft._nonblockingLzReceive (o : Bridge.Oft) (_payload : Bytes) : Tx Bridge.Oft :=
  OftCore._nonblockingLzReceive beyond _sendAck _payload
where
  /-- `_sendAck` of `OFTCore`. -/
  _sendAck (_payload : Bytes) : Tx Bridge.Oft := do
    let r ← decodeSend _payload
    let dst ← Bridge.toAddress r.1
    o._creditTo dst r.2

/-! ## What the receivers do -/

variable {beyond}

/-- A receiver that does something with one kind of custom message. -/
theorem dispatch_custom {α : Type} (t k : MessageType) (ns : List ℕ) (f e : Tx α) (s : α) :
    (if isCustomMessage beyond (custom t ns) = true then do
      let messageType ← getMessageType beyond (custom t ns)
      if messageType = k then f else .ok s
    else e) = if t = k then f else .ok s := by
  rw [isCustomMessage_custom, if_pos rfl, getMessageType_custom, ok_bind]

theorem oftReceive_encodeSend {α : Type} {bs : Bytes} {n : ℕ} (_sendAck : Bytes → Tx α) :
    OftCore._nonblockingLzReceive beyond _sendAck (encodeSend bs n) =
      _sendAck (encodeSend bs n) := by
  unfold OftCore._nonblockingLzReceive
  rw [mload_encodeSend]
  rfl

section Proxies

variable {σ : Type} [Heir σ] {src : ChainId}

/-- A packet reaches the `_sendAck` of the model. -/
theorem sendAck_encodeSend (p : ProxyOft σ) {bs : Bytes} {n : ℕ} (hbs : bs.length < 2 ^ 64)
    (hn : n < 2 ^ 256) :
    OftCore._nonblockingLzReceive beyond (PausableProxyOft._sendAck p src) (encodeSend bs n) =
      p._sendAck src bs n := by
  rw [oftReceive_encodeSend, PausableProxyOft._sendAck, decodeSend_encodeSend hbs hn, ok_bind]

end Proxies

variable {src : ChainId}

theorem AuraProxyOft.receive_bridge (p : ProxyOft AuraProxy) {q : Bridge.Payload} (hq : q.Fits) :
    AuraProxyOft._nonblockingLzReceive beyond p src q.encode = p._nonblockingLzReceive src q := by
  cases q with
  | send bs n =>
    have hcustom : ¬isCustomMessage beyond (encodeSend bs n) = true := by
      rw [isCustomMessage_encodeSend]
      decide
    exact (if_neg hcustom).trans (sendAck_encodeSend p hq.1 hq.2)
  | lock a n =>
    refine (dispatch_custom .lock .lock _ _ _ p).trans ((if_pos rfl).trans ?_)
    show (decodeLock (encodeLock a n) >>= fun r => p._lockFor AuraProxyOft.locker src r.1 r.2) = _
    rw [decodeLock_encodeLock a hq, ok_bind]
    rfl

theorem AuraProxyOft.receive_coordinators (p : ProxyOft AuraProxy) (q : Sidechain.Payload) :
    AuraProxyOft._nonblockingLzReceive beyond p src q.encode = .ok p := by
  cases q with
  | fees n => exact dispatch_custom .fees .lock _ _ _ p
  | feesCallback n => exact dispatch_custom .feesCallback .lock _ _ _ p

theorem L1Coordinator.receive_bridge {β : Type} (s : L1Coordinator β) (q : Bridge.Payload) :
    L1Coordinator._nonblockingLzReceive beyond s src q.encode = .ok s := by
  cases q with
  | send bs n =>
    unfold L1Coordinator._nonblockingLzReceive Bridge.Payload.encode
    rw [isCustomMessage_encodeSend]
    rfl
  | lock a n => exact dispatch_custom .lock .fees _ _ _ s

theorem L1Coordinator.receive_coordinators {β : Type} (s : L1Coordinator β)
    {q : Sidechain.Payload} (hq : q.Fits) :
    L1Coordinator._nonblockingLzReceive beyond s src q.encode = s._nonblockingLzReceive src q := by
  cases q with
  | fees n =>
    refine (dispatch_custom .fees .fees _ _ _ s).trans ((if_pos rfl).trans ?_)
    show (decodeFees (encodeFees n) >>= fun k => s._notifyFees src k) = _
    rw [decodeFees, encodeFees, decodeAmount_encodeAmount hq, ok_bind]
    rfl
  | feesCallback n => exact dispatch_custom .feesCallback .fees _ _ _ s

theorem L2Coordinator.receive_bridge (s : L2Coordinator) (q : Bridge.Payload) :
    L2Coordinator._nonblockingLzReceive beyond s q.encode = .ok s := by
  cases q with
  | send bs n =>
    unfold L2Coordinator._nonblockingLzReceive Bridge.Payload.encode
    rw [isCustomMessage_encodeSend]
    rfl
  | lock a n => exact dispatch_custom .lock .feesCallback _ _ _ s

theorem L2Coordinator.receive_coordinators (s : L2Coordinator) {q : Sidechain.Payload}
    (hq : q.Fits) : L2Coordinator._nonblockingLzReceive beyond s q.encode =
      s._nonblockingLzReceive q := by
  cases q with
  | fees n => exact dispatch_custom .fees .feesCallback _ _ _ s
  | feesCallback n =>
    refine (dispatch_custom .feesCallback .feesCallback _ _ _ s).trans ((if_pos rfl).trans ?_)
    show (decodeFeesCallback (encodeFeesCallback n) >>= fun _ => _) = _
    rw [decodeFeesCallback, encodeFeesCallback, decodeAmount_encodeAmount hq, ok_bind]
    rfl

/-! ## What the contracts send -/

/-- The payloads of the bridges, each with the call that sends it. Recipients that the ABI
decoder of `sendFrom` refuses are left out. -/
inductive SentByBridge : Bridge.Payload → Prop
  /-- `OFTCore._send` of the token of a sidechain. -/
  | oft {o o' : Bridge.Oft} {chain dst : ChainId} {sender _from : Address} {bs : Bytes} {n : ℕ}
      {m : Bridge.Message} (sent : o.sendFrom chain sender _from dst bs n = .ok (o', m))
      (length_lt : bs.length < 2 ^ 64) : SentByBridge m.payload
  /-- `AuraOFT.lock`. -/
  | lock {o o' : Bridge.Oft} {chain : ChainId} {sender _receiver : Address} {n : ℕ}
      {m : Bridge.Message} (sent : o.lock chain sender _receiver n = .ok (o', m)) :
      SentByBridge m.payload
  /-- `OFTCore._send` of `AuraProxyOFT`. -/
  | auraProxy {p p' : ProxyOft AuraProxy} {dst : ChainId} {sender _from : Address} {bs : Bytes}
      {n : ℕ} {m : Bridge.Message} (sent : p.sendFrom sender _from dst bs n = .ok (p', m))
      (length_lt : bs.length < 2 ^ 64) : SentByBridge m.payload
  /-- `OFTCore._send` of `AuraBalProxyOFT`. -/
  | auraBalProxy {p p' : ProxyOft AuraBalProxy} {dst : ChainId} {sender _from : Address}
      {bs : Bytes} {n : ℕ} {m : Bridge.Message}
      (sent : p.sendFrom sender _from dst bs n = .ok (p', m)) (length_lt : bs.length < 2 ^ 64) :
      SentByBridge m.payload
  /-- `AuraBalProxyOFT.processClaimable`. -/
  | processClaimable {p : ProxyOft AuraBalProxy} {s' : AuraBalProxy} {_token : Address}
      {_srcChainId : ChainId} {ms : List Bridge.Message} {m : Bridge.Message}
      (sent : AuraBalProxy.processClaimable p _token _srcChainId = .ok (s', ms)) (mem : m ∈ ms) :
      SentByBridge m.payload
  /-- `OFTCore._send` of `AuraProxyOFT`, on a call of `L1Coordinator.distributeAura`. -/
  | distributeAura {β : Type} [Booster β] {s s' : L1Coordinator β} {sender : Address}
      {c c' : ChainId} {ms : List Sidechain.Message} {bs : Bytes} {n : ℕ}
      (sent : s.distributeAura sender c = .ok (s', ms)) (mem : .oft c' bs n ∈ ms) :
      SentByBridge (.send bs n)

/-- The payloads of the coordinators, each with the call that sends it. -/
inductive SentByCoordinator : Sidechain.Payload → Prop
  /-- `L2Coordinator.notifyFees`, whose pending fees are a `uint256`. -/
  | notifyFees {s s' : L2Coordinator} {q : Sidechain.Payload} (sent : s.notifyFees = .ok (s', q))
      (pending_lt : s.pendingNotifyFees < 2 ^ 256) : SentByCoordinator q
  /-- `L1Coordinator.distributeAura`. -/
  | distributeAura {β : Type} [Booster β] {s s' : L1Coordinator β} {sender : Address}
      {c c' : ChainId} {ms : List Sidechain.Message} {q : Sidechain.Payload}
      (sent : s.distributeAura sender c = .ok (s', ms)) (mem : .toL2 c' q ∈ ms) :
      SentByCoordinator q

theorem balanceOf_lt (t : Erc20 Address) (a : Address) : t.balanceOf a < 2 ^ 256 :=
  (t.balanceOf_le a).trans_lt t.totalSupply_lt

theorem debitFrom_lt {t : Erc20 Address} {self sender src : Address} {n : ℕ}
    {r : Erc20 Address × ℕ} (h : ProxyOft._debitFrom t self sender src n = .ok r) :
    r.2 < 2 ^ 256 := by
  have hsum := ProxyOft.debitFrom_eq_ok h
  have hlt := balanceOf_lt r.1 self
  omega

theorem encodePacked_length_lt (a : Address) : (encodePacked a).length < 2 ^ 64 := by
  rw [encodePacked, List.length_map, List.length_range]
  norm_num

theorem proxySendFrom_payload {σ : Type} [Heir σ] {p p' : ProxyOft σ} {dst : ChainId}
    {sender src : Address} {bs : Bytes} {n : ℕ} {m : Bridge.Message}
    (h : p.sendFrom sender src dst bs n = .ok (p', m)) :
    ∃ r, Heir._debitFrom p.heir sender src n = .ok r ∧ m.payload = .send bs r.2 := by
  obtain ⟨_, -, h⟩ := bind_eq_ok.1 h
  obtain ⟨_, -, h⟩ := bind_eq_ok.1 h
  obtain ⟨r, hr, h⟩ := bind_eq_ok.1 h
  obtain ⟨_, -, h⟩ := bind_eq_ok.1 h
  cases h
  exact ⟨r, hr, rfl⟩

theorem lock_payload {o o' : Bridge.Oft} {chain : ChainId} {sender receiver : Address} {n : ℕ}
    {m : Bridge.Message} (h : o.lock chain sender receiver n = .ok (o', m)) :
    m.payload = .lock receiver n := by
  obtain ⟨_, -, h⟩ := bind_eq_ok.1 h
  obtain ⟨-, h⟩ := require_bind_eq_ok.1 h
  obtain ⟨_, -, h⟩ := bind_eq_ok.1 h
  obtain ⟨_, -, h⟩ := bind_eq_ok.1 h
  cases h
  rfl

theorem processClaimable_payload {p : ProxyOft AuraBalProxy} {s' : AuraBalProxy} {token : Address}
    {c : ChainId} {ms : List Bridge.Message} {m : Bridge.Message}
    (h : AuraBalProxy.processClaimable p token c = .ok (s', ms)) (hm : m ∈ ms) :
    ∃ a n, m.payload = .send (encodePacked a) n ∧ n < 2 ^ 256 := by
  obtain ⟨_, -, h⟩ := bind_eq_ok.1 h
  obtain ⟨-, h⟩ := require_bind_eq_ok.1 h
  obtain ⟨-, h⟩ := require_bind_eq_ok.1 h
  obtain ⟨-, h⟩ := require_bind_eq_ok.1 h
  obtain ⟨_, -, h⟩ := bind_eq_ok.1 h
  dsimp only at h
  split_ifs at h
  · obtain ⟨-, h⟩ := require_bind_eq_ok.1 h
    obtain ⟨total, ht, h⟩ := bind_eq_ok.1 h
    obtain ⟨hlt, -⟩ := uadd_eq_ok.1 ht
    obtain ⟨_, -, h⟩ := bind_eq_ok.1 h
    cases h
    obtain rfl := List.mem_singleton.1 hm
    exact ⟨_, _, rfl, (Nat.le_add_left _ _).trans_lt hlt⟩
  · -- the OFT of the token sends the message
    obtain ⟨_, -, h⟩ := bind_eq_ok.1 h
    cases h
    cases hm

theorem distributeAura_messages {β : Type} [Booster β] {s s' : L1Coordinator β} {sender : Address}
    {c : ChainId} {ms : List Sidechain.Message} (h : s.distributeAura sender c = .ok (s', ms)) :
    ∃ a n reward, ms = [.oft c (encodePacked a) n, .toL2 c (.feesCallback reward)] ∧
      n < 2 ^ 256 ∧ reward < 2 ^ 256 := by
  obtain ⟨-, h⟩ := require_bind_eq_ok.1 h
  obtain ⟨_, -, h⟩ := bind_eq_ok.1 h
  obtain ⟨_, -, h⟩ := bind_eq_ok.1 h
  obtain ⟨s₁, -, h⟩ := bind_eq_ok.1 h
  obtain ⟨-, h⟩ := require_bind_eq_ok.1 h
  obtain ⟨_, -, h⟩ := bind_eq_ok.1 h
  obtain ⟨x, hx, h⟩ := bind_eq_ok.1 h
  obtain ⟨hlt, rfl⟩ := umul_eq_ok.1 hx
  obtain ⟨reward, hr, h⟩ := bind_eq_ok.1 h
  obtain ⟨-, rfl⟩ := udiv_eq_ok.1 hr
  obtain ⟨-, h⟩ := require_bind_eq_ok.1 h
  obtain ⟨_, -, h⟩ := bind_eq_ok.1 h
  obtain ⟨s₂, -, h⟩ := bind_eq_ok.1 h
  obtain ⟨_, -, h⟩ := bind_eq_ok.1 h
  obtain ⟨_, hsend, h⟩ := bind_eq_ok.1 h
  obtain ⟨_, hdebit, hsend⟩ := bind_eq_ok.1 hsend
  cases hsend
  cases h
  exact ⟨_, _, _, rfl, debitFrom_lt hdebit, (Nat.div_le_self _ _).trans_lt hlt⟩

theorem SentByBridge.fits {q : Bridge.Payload} (h : SentByBridge q) : q.Fits := by
  cases h with
  | @oft o _ _ _ _ _ _ _ _ hx hlen =>
    obtain ⟨rfl, hsup⟩ := Bridge.Oft.sendFrom_eq_ok hx
    exact ⟨hlen, (Nat.le_add_left _ _).trans_lt (hsup.trans_lt o.token.totalSupply_lt)⟩
  | @lock o _ _ _ _ _ _ hx =>
    have hsup := Bridge.Oft.lock_eq_ok hx
    rw [lock_payload hx] at hsup ⊢
    exact (Nat.le_add_left _ _).trans_lt (hsup.trans_lt o.token.totalSupply_lt)
  | auraProxy hx hlen =>
    obtain ⟨r, hr, hm⟩ := proxySendFrom_payload hx
    obtain ⟨r', hr', hr⟩ := bind_eq_ok.1 hr
    cases hr
    rw [hm]
    exact ⟨hlen, debitFrom_lt hr'⟩
  | auraBalProxy hx hlen =>
    obtain ⟨r, hr, hm⟩ := proxySendFrom_payload hx
    obtain ⟨_, -, hr⟩ := bind_eq_ok.1 hr
    obtain ⟨r', -, hr⟩ := bind_eq_ok.1 hr
    obtain ⟨total, ht, hr⟩ := bind_eq_ok.1 hr
    obtain ⟨hlt, -⟩ := uadd_eq_ok.1 ht
    cases hr
    rw [hm]
    exact ⟨hlen, (Nat.le_add_left _ _).trans_lt hlt⟩
  | processClaimable hx hmem =>
    obtain ⟨a, n, hm, hn⟩ := processClaimable_payload hx hmem
    rw [hm]
    exact ⟨encodePacked_length_lt a, hn⟩
  | distributeAura hx hmem =>
    obtain ⟨a, n, reward, rfl, hn, -⟩ := distributeAura_messages hx
    obtain heq | hmem := List.mem_cons.1 hmem
    · cases heq
      exact ⟨encodePacked_length_lt a, hn⟩
    · cases List.mem_singleton.1 hmem

theorem SentByCoordinator.fits {q : Sidechain.Payload} (h : SentByCoordinator q) : q.Fits := by
  cases h with
  | notifyFees hx hlt =>
    obtain ⟨_, -, hx⟩ := bind_eq_ok.1 hx
    cases hx
    exact hlt
  | distributeAura hx hmem =>
    obtain ⟨a, n, reward, rfl, -, hr⟩ := distributeAura_messages hx
    obtain heq | hmem := List.mem_cons.1 hmem
    · cases heq
    · cases List.mem_singleton.1 hmem
      exact hr

/-! ## The main result -/

/-- Messages are read as what they are : the encodings decode, with the kind they were given,
no packet of an OFT is a custom message, and every receiver does with the bytes of a payload
that is sent what its model does with the payload. -/
theorem dispatch_unambiguous {β : Type} (beyond : ℕ → Byte) :
    (∀ sender amount, amount < 2 ^ 256 →
      decodeLock (encodeLock sender amount) = .ok (sender, amount) ∧
      decodeFees (encodeFees amount) = .ok amount ∧
      decodeFeesCallback (encodeFeesCallback amount) = .ok amount) ∧
    (∀ sender amount, isCustomMessage beyond (encodeLock sender amount) = true ∧
      getMessageType beyond (encodeLock sender amount) = .ok .lock) ∧
    (∀ amount, isCustomMessage beyond (encodeFees amount) = true ∧
      getMessageType beyond (encodeFees amount) = .ok .fees) ∧
    (∀ amount, isCustomMessage beyond (encodeFeesCallback amount) = true ∧
      getMessageType beyond (encodeFeesCallback amount) = .ok .feesCallback) ∧
    (∀ toAddressBytes amount, isCustomMessage beyond (encodeSend toAddressBytes amount) = false) ∧
    (∀ q, SentByBridge q → ∀ src,
      (∀ p, AuraProxyOft._nonblockingLzReceive beyond p src q.encode =
        p._nonblockingLzReceive src q) ∧
      (∀ s : L1Coordinator β, L1Coordinator._nonblockingLzReceive beyond s src q.encode = .ok s) ∧
      ∀ s, L2Coordinator._nonblockingLzReceive beyond s q.encode = .ok s) ∧
    ∀ q, SentByCoordinator q → ∀ src,
      (∀ p, AuraProxyOft._nonblockingLzReceive beyond p src q.encode = .ok p) ∧
      (∀ s : L1Coordinator β, L1Coordinator._nonblockingLzReceive beyond s src q.encode =
        s._nonblockingLzReceive src q) ∧
      ∀ s, L2Coordinator._nonblockingLzReceive beyond s q.encode = s._nonblockingLzReceive q := by
  refine ⟨fun a n hn => ⟨decodeLock_encodeLock a hn, decodeAmount_encodeAmount hn,
      decodeAmount_encodeAmount hn⟩,
    fun _ _ => ⟨isCustomMessage_custom, getMessageType_custom⟩,
    fun _ => ⟨isCustomMessage_custom, getMessageType_custom⟩,
    fun _ => ⟨isCustomMessage_custom, getMessageType_custom⟩,
    fun _ _ => isCustomMessage_encodeSend, fun q hq src => ?_, fun q hq src => ?_⟩
  · exact ⟨fun p => AuraProxyOft.receive_bridge p hq.fits,
      fun s => L1Coordinator.receive_bridge s q, fun s => L2Coordinator.receive_bridge s q⟩
  · exact ⟨fun p => AuraProxyOft.receive_coordinators p q,
      fun s => L1Coordinator.receive_coordinators s hq.fits,
      fun s => L2Coordinator.receive_coordinators s hq.fits⟩

/-- The AURA of a sidechain, held by the account 2. -/
def initialOft : Bridge.Oft :=
  ⟨Erc20.single 2 (10 ^ 30) Erc20.single_supply_lt fun _ _ => 0, ⟨400, false⟩, 101, fun _ => true⟩

/-- A coordinator with 5 wei of fees that the L1 does not know of. -/
def notifying : L2Coordinator :=
  ⟨300, 1, 101, 200, 2, 201, 4, 3, 5, 10, fun _ => true, fun _ => initialOft.token⟩

/-- A lock request for the account 5 and a notification of fees. -/
theorem dispatch_unambiguous_run : decodeLock (encodeLock 5 40) = .ok (5, 40) ∧
    (∀ p, AuraProxyOft._nonblockingLzReceive (fun _ => 7) p 110 (encodeLock 5 40) =
      p._lockFor AuraProxyOft.locker 110 5 40) ∧
    ∀ s : L1Coordinator Unit,
      L1Coordinator._nonblockingLzReceive (fun _ => 7) s 110 (encodeFees 5) =
        s._notifyFees 110 5 := by
  obtain ⟨hcodec, -, -, -, -, hbridge, hcoordinator⟩ :=
    dispatch_unambiguous (β := Unit) fun _ => 7
  obtain ⟨⟨o, m⟩, hlock⟩ := Tx.exists_ok
    (show (initialOft.lock 110 2 5 40).returns = true by decide +kernel)
  have hsent : SentByBridge (.lock 5 40) := lock_payload hlock ▸ .lock hlock
  have hfees : SentByCoordinator (.fees 5) :=
    .notifyFees (show notifying.notifyFees =
      .ok ({ notifying with pendingNotifyFees := 0 }, .fees 5) from rfl) (by decide)
  exact ⟨(hcodec 5 40 (by norm_num)).1, (hbridge _ hsent 110).1, (hcoordinator _ hfees 110).2.1⟩

end Messages

end Aura
