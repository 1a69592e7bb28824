import Aura.AuraMath
import Aura.Evm.Abi

/-!
# Bridge : messages and the tokens of the sidechains

What the contracts of a bridge send each other, and `PausableOFT` with its heirs `AuraOFT`
and `AuraBalOFT` : the token of a sidechain, which burns what leaves and mints what arrives.

A payload is modelled by what it encodes. Gas, fees, adapter parameters and payload sizes
can only make a call revert, and are left out.
-/

open Evm Function

namespace Aura.Bridge

/-- A LayerZero chain id, `uint16`. -/
def ChainId : Type :=
  Fin (2 ^ 16)

instance : DecidableEq ChainId :=
  inferInstanceAs (DecidableEq (Fin (2 ^ 16)))

-- irreducible : no proof should ever list the chains
@[irreducible] instance : Fintype ChainId :=
  inferInstanceAs (Fintype (Fin (2 ^ 16)))

instance (n : ℕ) : OfNat ChainId n :=
  inferInstanceAs (OfNat (Fin (2 ^ 16)) n)

/-! ## Payloads -/

abbrev Bytes := List (Fin 256)

/-- `BytesLib.toAddress(_bytes, 0)`. -/
def toAddress (_bytes : Bytes) : Tx Address := do
  require (20 ≤ _bytes.length) "toAddress_outOfBounds"
  .ok (Fin.ofNat (2 ^ 160) ((_bytes.take 20).foldl (fun n b => n * 256 + b.val) 0))

/-- `abi.encodePacked(address)`. -/
def encodePacked (a : Address) : Bytes :=
  (List.range 20).map fun i => Fin.ofNat 256 (Fin.val a / 256 ^ (19 - i))

theorem toAddress_encodePacked (a : Address) : toAddress (encodePacked a) = .ok a := by
  have hlen : (encodePacked a).length = 20 := Abi.length_bytesOf 20 (Fin.val a)
  have hfold : (encodePacked a).foldl (fun n b => n * 256 + b.val) 0 = Fin.val a := by
    have hdigits : (encodePacked a).foldl (fun n b => n * 256 + b.val) 0 = Fin.val a % 256 ^ 20 :=
      Abi.toNat_bytesOf 20 (Fin.val a)
    rw [hdigits]
    refine Nat.mod_eq_of_lt ?_
    have := Fin.is_lt a
    norm_num at this ⊢
    exact this
  unfold toAddress
  rw [require_of (by rw [hlen]), ok_bind, List.take_of_length_le hlen.le, hfold]
  exact congrArg Except.ok (Fin.ofNat_val_eq_self a)

/-- What a message carries : a transfer, or the custom message `LOCK`. -/
inductive Payload where
  /-- `abi.encode(PT_SEND, _toAddress, amount)`. -/
  | send (_toAddress : Bytes) (amount : ℕ)
  /-- `CCM.encodeLock(sender, amount)`. -/
  | lock (sender : Address) (amount : ℕ)
  deriving DecidableEq

/-- The amount that a payload carries to another chain. -/
def Payload.amount : Payload → ℕ
  | .send _ n => n
  | .lock _ n => n

/-- Who gets the amount. -/
def Payload.recipient : Payload → Tx Address
  | .send _toAddress _ => toAddress _toAddress
  | .lock sender _ => .ok sender

/-- A message from the contract of one chain to that of another. -/
structure Message where
  srcChainId : ChainId
  dstChainId : ChainId
  payload : Payload
  deriving DecidableEq

/-- The check of `_lzSend` : only chains with a trusted remote can be sent to. -/
def requireTrusted (trustedRemoteLookup : ChainId → Bool) (_dstChainId : ChainId) : Tx Unit :=
  require (trustedRemoteLookup _dstChainId = true)
    "LzApp: destination chain is not a trusted source"

/-! ## PauseGuardian -/

structure PauseGuardian where
  guardian : Address
  paused : Bool

namespace PauseGuardian

def whenNotPaused (g : PauseGuardian) : Tx Unit :=
  require (g.paused = false) "Pausable: paused"

/-- `pause`. -/
def pause (g : PauseGuardian) (sender : Address) : Tx PauseGuardian := do
  require (sender = g.guardian) "!guardian"
  g.whenNotPaused
  .ok { g with paused := true }

/-- `unpause`. -/
def unpause (g : PauseGuardian) (sender : Address) : Tx PauseGuardian := do
  require (sender = g.guardian) "!guardian"
  require (g.paused = true) "Pausable: not paused"
  .ok { g with paused := false }

end PauseGuardian

/-! ## PausableOFT -/

/-- The storage of the token of a sidechain. -/
structure Oft where
  token : Erc20 Address
  guard : PauseGuardian
  /-- `canonicalChainId` of `AuraOFT`. -/
  canonicalChainId : ChainId
  /-- The chains with a trusted remote. -/
  trustedRemoteLookup : ChainId → Bool

namespace Oft

/-- `_spendAllowance`. -/
def _spendAllowance (t : Erc20 Address) (owner spender : Address) (amount : ℕ) :
    Tx (Erc20 Address) := do
  let currentAllowance := t.allowance owner spender
  if currentAllowance ≠ 2 ^ 256 - 1 then do
    require (amount ≤ currentAllowance) "ERC20: insufficient allowance"
    t.approve owner spender (currentAllowance - amount)
  else .ok t

/-- `_debitFrom`, called by `spender` : an owner needs no allowance. -/
def _debitFrom (o : Oft) (spender _from : Address) (_amount : ℕ) : Tx Oft := do
  let t ← spendFrom
  let t ← t.burn _from _amount
  .ok { o with token := t }
where
  spendFrom : Tx (Erc20 Address) :=
    if _from ≠ spender then _spendAllowance o.token _from spender _amount else .ok o.token

/-- `_creditTo`. -/
def _creditTo (o : Oft) (_toAddress : Address) (_amount : ℕ) : Tx Oft := do
  let t ← o.token.mint _toAddress _amount
  .ok { o with token := t }

/-- `sendFrom` of the token on `chain`. -/
def sendFrom (o : Oft) (chain : ChainId) (sender _from : Address) (_dstChainId : ChainId)
    (_toAddress : Bytes) (_amount : ℕ) : Tx (Oft × Message) := do
  o.guard.whenNotPaused
  let o ← o._debitFrom sender _from _amount
  requireTrusted o.trustedRemoteLookup _dstChainId
  .ok (o, ⟨chain, _dstChainId, .send _toAddress _amount⟩)

/-- `AuraOFT.lock` on `chain`. -/
def lock (o : Oft) (chain : ChainId) (sender _receiver : Address) (_cvxAmount : ℕ) :
    Tx (Oft × Message) := do
  o.guard.whenNotPaused
  require (0 < _cvxAmount) "!amount"
  let o ← o._debitFrom sender sender _cvxAmount
  requireTrusted o.trustedRemoteLookup o.canonicalChainId
  .ok (o, ⟨chain, o.canonicalChainId, .lock _receiver _cvxAmount⟩)

/-- `_nonblockingLzReceive` : the payload of a custom message does not decode. -/
def _nonblockingLzReceive (o : Oft) : Payload → Tx Oft
  | .send toAddressBytes amount => do
    let dst ← toAddress toAddressBytes
    o._creditTo dst amount
  | .lock _ _ => .error (.reason "")

/-! ## What the functions do to the supply -/

theorem spendAllowance_eq_ok {t t' : Erc20 Address} {owner spender : Address} {n : ℕ}
    (h : _spendAllowance t owner spender n = .ok t') : t'.totalSupply = t.totalSupply := by
  unfold _spendAllowance at h
  dsimp only at h
  split_ifs at h
  · obtain ⟨-, h⟩ := require_bind_eq_ok.1 h
    exact (Erc20.approve_eq_ok h).2
  · cases h
    rfl

/-- A debit burns. -/
theorem debitFrom_eq_ok {o o' : Oft} {spender src : Address} {n : ℕ}
    (h : o._debitFrom spender src n = .ok o') :
    o'.token.totalSupply + n = o.token.totalSupply := by
  unfold _debitFrom at h
  obtain ⟨t, ht, h⟩ := bind_eq_ok.1 h
  obtain ⟨t', ht', h⟩ := bind_eq_ok.1 h
  cases h
  obtain ⟨-, -, hsup⟩ := Erc20.burn_eq_ok ht'
  have : t.totalSupply = o.token.totalSupply := by
    unfold _debitFrom.spendFrom at ht
    split_ifs at ht
    · exact spendAllowance_eq_ok ht
    · cases ht
      rfl
  exact hsup.trans this

/-- Sending burns what the message carries. -/
theorem sendFrom_eq_ok {o o' : Oft} {chain dst : ChainId} {sender src : Address} {bs : Bytes}
    {n : ℕ} {m : Message} (h : o.sendFrom chain sender src dst bs n = .ok (o', m)) :
    m = ⟨chain, dst, .send bs n⟩ ∧
      o'.token.totalSupply + m.payload.amount = o.token.totalSupply := by
  unfold sendFrom at h
  obtain ⟨-, -, h⟩ := bind_eq_ok.1 h
  obtain ⟨o₁, h₁, h⟩ := bind_eq_ok.1 h
  obtain ⟨-, -, h⟩ := bind_eq_ok.1 h
  cases h
  exact ⟨rfl, debitFrom_eq_ok h₁⟩

theorem lock_eq_ok {o o' : Oft} {chain : ChainId} {sender receiver : Address} {n : ℕ}
    {m : Message} (h : o.lock chain sender receiver n = .ok (o', m)) :
    o'.token.totalSupply + m.payload.amount = o.token.totalSupply := by
  unfold lock at h
  obtain ⟨-, -, h⟩ := bind_eq_ok.1 h
  obtain ⟨-, h⟩ := require_bind_eq_ok.1 h
  obtain ⟨o₁, h₁, h⟩ := bind_eq_ok.1 h
  obtain ⟨-, -, h⟩ := bind_eq_ok.1 h
  cases h
  exact debitFrom_eq_ok h₁

/-- Receiving mints what the payload carries. -/
theorem nonblockingLzReceive_eq_ok {o o' : Oft} {p : Payload}
    (h : o._nonblockingLzReceive p = .ok o') :
    o'.token.totalSupply = o.token.totalSupply + p.amount := by
  cases p with
  | send bs n =>
    obtain ⟨a, -, h⟩ := bind_eq_ok.1 h
    unfold _creditTo at h
    obtain ⟨t, ht, h⟩ := bind_eq_ok.1 h
    cases h
    exact (Erc20.mint_eq_ok ht).2.2
  | lock a n => cases h

end Oft

end Aura.Bridge
