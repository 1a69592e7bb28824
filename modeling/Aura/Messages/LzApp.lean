import Aura.Messages.BytesLib
import Mathlib.Algebra.GroupWithZero.WithZero

/-!
# Messages : LzApp

`LzApp.sol`, which every contract that sends or receives messages inherits : the path of the
trusted remote of a chain, the checks before a message is sent and after it arrives, and the
settings of the owner.

A path is the address of the remote contract followed by that of this one. The remote that
`setTrustedRemoteAddress` sets is read back from the path, whatever its length
(`getTrustedRemoteAddress_of_set`).
-/

open Evm Evm.Abi Function

namespace Aura.Messages

open Bridge (Bytes ChainId encodePacked)

/-- The hash of byte strings is a `bytes32` that is not zero, and there are no collisions. -/
structure CollisionFree {D : Type} [Zero D] (keccak256 : Bytes → D) : Prop where
  inj : ∀ {a b}, keccak256 a = keccak256 b → a = b
  ne_zero : ∀ a, keccak256 a ≠ 0

/-- The storage of `LzApp`. -/
structure LzApp where
  self : Address
  owner : Address
  lzEndpoint : Address
  trustedRemoteLookup : ChainId → Bytes
  minDstGasLookup : ChainId → ℕ → ℕ
  payloadSizeLimitLookup : ChainId → ℕ

/-- What is passed to the endpoint. -/
structure Outgoing where
  dstChainId : ChainId
  path : Bytes
  payload : Bytes
  deriving DecidableEq

namespace LzApp

/-- `DEFAULT_PAYLOAD_SIZE_LIMIT`. -/
def defaultPayloadSizeLimit : ℕ := 10000

def onlyOwner (s : LzApp) (sender : Address) : Tx Unit :=
  require (sender = s.owner) "Ownable: caller is not the owner"

/-- `lzReceive`, with the `_blockingLzReceive` of an heir. -/
def lzReceive {D α : Type} [DecidableEq D] (keccak256 : Bytes → D) (s : LzApp) (sender : Address)
    (_srcChainId : ChainId) (_srcAddress : Bytes) (_blockingLzReceive : Tx α) : Tx α := do
  require (sender = s.lzEndpoint) "LzApp: invalid endpoint caller"
  let trustedRemote := s.trustedRemoteLookup _srcChainId
  require (_srcAddress.length = trustedRemote.length ∧ 0 < trustedRemote.length ∧
    keccak256 _srcAddress = keccak256 trustedRemote) "LzApp: invalid source sending contract"
  _blockingLzReceive

/-- `_checkPayloadSize`. -/
def _checkPayloadSize (s : LzApp) (_dstChainId : ChainId) (_payloadSize : ℕ) : Tx Unit :=
  let payloadSizeLimit := s.payloadSizeLimitLookup _dstChainId
  let payloadSizeLimit :=
    if payloadSizeLimit = 0 then defaultPayloadSizeLimit else payloadSizeLimit
  require (_payloadSize ≤ payloadSizeLimit) "LzApp: payload size is too large"

/-- `_lzSend`, up to the call of the endpoint. -/
def _lzSend (s : LzApp) (_dstChainId : ChainId) (_payload : Bytes) : Tx Outgoing := do
  let trustedRemote := s.trustedRemoteLookup _dstChainId
  require (trustedRemote.length ≠ 0) "LzApp: destination chain is not a trusted source"
  s._checkPayloadSize _dstChainId _payload.length
  .ok ⟨_dstChainId, trustedRemote, _payload⟩

/-- `_getGasLimit` : the word behind the type. -/
def _getGasLimit (beyond : ℕ → Byte) (_adapterParams : Bytes) : Tx ℕ := do
  require (34 ≤ _adapterParams.length) "LzApp: invalid adapterParams"
  .ok (mload beyond _adapterParams 2)

/-- `_checkGasLimit`. -/
def _checkGasLimit (beyond : ℕ → Byte) (s : LzApp) (_dstChainId : ChainId) (_type : ℕ)
    (_adapterParams : Bytes) (_extraGas : ℕ) : Tx Unit := do
  let providedGasLimit ← _getGasLimit beyond _adapterParams
  let minGasLimit ← uadd 256 (s.minDstGasLookup _dstChainId _type) _extraGas
  require (0 < minGasLimit) "LzApp: minGasLimit not set"
  require (minGasLimit ≤ providedGasLimit) "LzApp: gas limit is too low"

/-- `trustedRemoteLookup[_chainId] = _path`. -/
def trust (s : LzApp) (_chainId : ChainId) (_path : Bytes) : LzApp :=
  { s with trustedRemoteLookup := update s.trustedRemoteLookup _chainId _path }

/-- `setTrustedRemote`. -/
def setTrustedRemote (s : LzApp) (sender : Address) (_srcChainId : ChainId) (_path : Bytes) :
    Tx LzApp := do
  s.onlyOwner sender
  .ok (s.trust _srcChainId _path)

/-- `setTrustedRemoteAddress`. -/
def setTrustedRemoteAddress (s : LzApp) (sender : Address) (_remoteChainId : ChainId)
    (_remoteAddress : Bytes) : Tx LzApp := do
  s.onlyOwner sender
  .ok (s.trust _remoteChainId (_remoteAddress ++ encodePacked s.self))

/-- `getTrustedRemoteAddress`, which loads the path to the free memory before it slices it. -/
def getTrustedRemoteAddress (fuel : ℕ) (m : Memory) (s : LzApp) (_remoteChainId : ChainId) :
    Tx (ℕ × Memory) := do
  let (path, m) := m.load (s.trustedRemoteLookup _remoteChainId)
  require (m.mload path ≠ 0) "LzApp: no trusted path record"
  let stop ← usub (m.mload path) 20
  BytesLib.slice fuel m path 0 stop

/-- `setMinDstGas`. -/
def setMinDstGas (s : LzApp) (sender : Address) (_dstChainId : ChainId) (_packetType _minGas : ℕ) :
    Tx LzApp := do
  s.onlyOwner sender
  require (0 < _minGas) "LzApp: invalid minGas"
  let ofChain := update (s.minDstGasLookup _dstChainId) _packetType _minGas
  .ok { s with minDstGasLookup := update s.minDstGasLookup _dstChainId ofChain }

/-- `isTrustedRemote`. -/
def isTrustedRemote {D : Type} [DecidableEq D] (keccak256 : Bytes → D) (s : LzApp)
    (_srcChainId : ChainId) (_srcAddress : Bytes) : Bool :=
  keccak256 (s.trustedRemoteLookup _srcChainId) = keccak256 _srcAddress

variable {D α : Type} [DecidableEq D] [Zero D] {keccak256 : Bytes → D} {s s' : LzApp}
  {sender : Address} {c : ChainId} {path : Bytes}

@[simp] theorem trust_self (s : LzApp) (c : ChainId) (path : Bytes) :
    (s.trust c path).trustedRemoteLookup c = path := by
  unfold trust
  exact update_self _ _ _

/-! ## Paths -/

@[simp] theorem length_encodePacked (a : Address) : (encodePacked a).length = 20 :=
  length_bytesOf 20 (Fin.val a)

theorem encodePacked_inj {a b : Address} (h : encodePacked a = encodePacked b) : a = b := by
  have heq := congrArg Bridge.toAddress h
  rw [Bridge.toAddress_encodePacked, Bridge.toAddress_encodePacked] at heq
  exact Except.ok.inj heq

/-- A message is taken exactly if the endpoint brings it on the trusted path. -/
theorem lzReceive_eq_ok (hK : CollisionFree keccak256) {x : Tx α} {a : α} :
    lzReceive keccak256 s sender c path x = .ok a ↔
      sender = s.lzEndpoint ∧ path = s.trustedRemoteLookup c ∧ path ≠ [] ∧ x = .ok a := by
  unfold lzReceive
  rw [require_bind_eq_ok, require_bind_eq_ok]
  constructor
  · rintro ⟨hsender, ⟨-, hpos, hhash⟩, hx⟩
    have hpath := hK.inj hhash
    exact ⟨hsender, hpath, List.ne_nil_of_length_pos (hpath ▸ hpos), hx⟩
  · rintro ⟨hsender, rfl, hne, hx⟩
    exact ⟨hsender, ⟨rfl, List.length_pos_of_ne_nil hne, rfl⟩, hx⟩

/-- The path from one contract to another, as the endpoint builds it. -/
def pathOf (src dst : Address) : Bytes :=
  encodePacked src ++ encodePacked dst

theorem pathOf_inj {src dst src' dst' : Address} (h : pathOf src dst = pathOf src' dst') :
    src = src' ∧ dst = dst' := by
  obtain ⟨hsrc, hdst⟩ := List.append_inj h (by simp)
  exact ⟨encodePacked_inj hsrc, encodePacked_inj hdst⟩

theorem pathOf_ne_nil (src dst : Address) : pathOf src dst ≠ [] := by
  refine List.ne_nil_of_length_pos ?_
  rw [pathOf, List.length_append, length_encodePacked]
  exact Nat.succ_pos _

/-- The remote that the owner has set is read back, whatever its length. Reading it changes no
value in memory. -/
theorem getTrustedRemoteAddress_of_set {fuel : ℕ} {m : Memory} {_remoteAddress : Bytes}
    (h : s.setTrustedRemoteAddress sender c _remoteAddress = .ok s') (hlow : 0x60 ≤ m.free)
    (hhigh : m.free + _remoteAddress.length < 2 ^ 63) (hfuel : _remoteAddress.length ≤ fuel) :
    ∃ r, getTrustedRemoteAddress fuel m s' c = .ok r ∧ r.2.bytes r.1 = _remoteAddress ∧
      ∀ q, m.Allocated q → r.2.Allocated q ∧ r.2.bytes q = m.bytes q := by
  unfold setTrustedRemoteAddress onlyOwner at h
  obtain ⟨-, h⟩ := require_bind_eq_ok.1 h
  cases h
  set path := _remoteAddress ++ encodePacked s.self with hpath
  have hlen : path.length = _remoteAddress.length + 20 := by
    rw [hpath, List.length_append, length_encodePacked]
  obtain ⟨hbytes, halloc, hnew, hkeep⟩ := @Memory.load_spec m path hlow (by omega)
  set r := m.load path with hr
  have hmload : r.2.mload r.1 = _remoteAddress.length + 20 := by
    rw [← Memory.length_bytes, hbytes, hlen]
  obtain ⟨m', hm', hvalue, -, -, hkeep'⟩ := @BytesLib.slice_ok r.2 r.1 0 _remoteAddress.length fuel
    halloc (by omega) hfuel (by omega)
  refine ⟨(r.2.free, m'), ?_, ?_, fun q hq => ?_⟩
  · unfold getTrustedRemoteAddress
    rw [trust_self, ← hr]
    dsimp only
    rw [ require_of (by omega), ok_bind, hmload, usub_add_right, ok_bind, hm']
  · rw [hvalue, hbytes, List.drop_zero, hpath, List.take_left]
  · obtain ⟨hq, heq⟩ := hkeep q hq
    obtain ⟨hq', heq'⟩ := hkeep' q hq
    exact ⟨hq', heq'.trans heq⟩

/-- An application of the account 1 that trusts nobody. -/
def untrusting : LzApp where
  self := 9
  owner := 1
  lzEndpoint := 2
  trustedRemoteLookup _ := []
  minDstGasLookup _ _ := 0
  payloadSizeLimitLookup _ := 0

/-- A hash without collisions. -/
def hashOf (b : Bytes) : WithZero Bytes :=
  b

theorem collisionFree_hashOf : CollisionFree hashOf where
  inj h := WithZero.coe_inj.1 h
  ne_zero _ := WithZero.coe_ne_zero

/-- A remote whose address has 33 bytes is read back from behind a value of 50 bytes. -/
theorem getTrustedRemoteAddress_of_set_run : ∃ s' r,
    untrusting.setTrustedRemoteAddress 1 110 (List.replicate 33 5) = .ok s' ∧
    getTrustedRemoteAddress 33 BytesLib.sampleMemory s' 110 = .ok r ∧
    r.2.bytes r.1 = List.replicate 33 5 := by
  have h : untrusting.setTrustedRemoteAddress 1 110 (List.replicate 33 5) =
      .ok (untrusting.trust 110 (List.replicate 33 5 ++ encodePacked 9)) := rfl
  obtain ⟨r, hr, hvalue, -⟩ := getTrustedRemoteAddress_of_set h
    (show 0x60 ≤ BytesLib.sampleMemory.free by decide +kernel) (by decide +kernel)
    (show _ ≤ 33 by decide)
  exact ⟨_, r, h, hr, hvalue⟩

end LzApp

end Aura.Messages
