import Aura.Bridge.Oft

/-!
# Messages : CrossChainMessages

`CrossChainMessages.sol` and the packet of `OFTCore.sol`, byte by byte. A custom message starts
with `MAGIC_BYTES` and its type; a packet of an OFT starts with `PT_SEND`, which is zero, and
carries a recipient of any length.

The kind of a message is read with loads from memory, which check no length : `beyond` is what
memory holds behind the payload.
-/

open Evm Evm.Abi

namespace Aura

open Bridge (Bytes)

/-! ## CrossChainMessages -/

namespace CrossChainMessages

/-- `MAGIC_BYTES`. -/
def magicBytes : ℕ := 0x7a7f9946

inductive MessageType where
  /-- Lock L2 AURA as vlAURA. -/
  | lock
  /-- Sent from the L2 to trigger a feeDebt update. -/
  | fees
  /-- Sent from the L1 to the L2 after a successful debt update. -/
  | feesCallback
  deriving DecidableEq

/-- The value of a member of the enum. -/
def MessageType.value : MessageType → ℕ
  | .lock => 0
  | .fees => 1
  | .feesCallback => 2

/-- `MessageType(n)`. -/
def MessageType.ofValue : ℕ → Tx MessageType
  | 0 => .ok .lock
  | 1 => .ok .fees
  | 2 => .ok .feesCallback
  | _ => .error .badEnum

/-- `getMessageType` : the last byte of the second word. -/
def getMessageType (beyond : ℕ → Byte) (_payload : Bytes) : Tx MessageType :=
  let messageType := mload beyond _payload 32
  MessageType.ofValue (messageType % 2 ^ 8)

/-- `isCustomMessage` : the first four bytes of the first word. -/
def isCustomMessage (beyond : ℕ → Byte) (_payload : Bytes) : Bool :=
  let sig := mload beyond _payload 0 / 2 ^ 224
  sig = magicBytes

/-- `encodeLock`. -/
def encodeLock (sender : Address) (amount : ℕ) : Bytes :=
  words [bytes4 magicBytes, MessageType.lock.value, Fin.val sender, amount]

/-- `abi.encode(MAGIC_BYTES, t, amount)`. -/
def encodeAmount (t : MessageType) (amount : ℕ) : Bytes :=
  words [bytes4 magicBytes, t.value, amount]

/-- `encodeFees`. -/
def encodeFees (amount : ℕ) : Bytes :=
  encodeAmount .fees amount

/-- `encodeFeesCallback`. -/
def encodeFeesCallback (cvxAmount : ℕ) : Bytes :=
  encodeAmount .feesCallback cvxAmount

/-- `abi.decode(_payload, (bytes4, uint8, uint256))`. -/
def decodeAmount (_payload : Bytes) : Tx ℕ := do
  require (96 ≤ _payload.length) ""
  let _ ← bytes4At _payload 0
  let _ ← uintAt 8 _payload 32
  uintAt 256 _payload 64

/-- `decodeFeesCallback`. -/
def decodeFeesCallback (_payload : Bytes) : Tx ℕ :=
  decodeAmount _payload

/-- `decodeFees`. -/
def decodeFees (_payload : Bytes) : Tx ℕ :=
  decodeAmount _payload

/-- The address with a number. -/
def addressOf (n : ℕ) : Address :=
  ⟨n % 2 ^ 160, Nat.mod_lt n (Nat.two_pow_pos 160)⟩

/-- `decodeLock`. -/
def decodeLock (_payload : Bytes) : Tx (Address × ℕ) := do
  require (128 ≤ _payload.length) ""
  let _ ← bytes4At _payload 0
  let _ ← uintAt 8 _payload 32
  let sender ← uintAt 160 _payload 64
  let amount ← uintAt 256 _payload 96
  .ok (addressOf sender, amount)

variable {beyond : ℕ → Byte} {t : MessageType} {ns : List ℕ} {amount : ℕ}

/-- What the encoders write. -/
def custom (t : MessageType) (ns : List ℕ) : Bytes :=
  words (bytes4 magicBytes :: t.value :: ns)

theorem magicBytes_lt : magicBytes < 2 ^ 32 := by
  decide

theorem MessageType.value_lt (t : MessageType) : t.value < 2 ^ 8 := by
  cases t <;> decide

theorem MessageType.ofValue_value (t : MessageType) : ofValue t.value = .ok t := by
  cases t <;> rfl

theorem mload_custom (beyond : ℕ → Byte) (t : MessageType) (ns : List ℕ) :
    mload beyond (custom t ns) 0 = bytes4 magicBytes :=
  mload_of_words (i := 0) beyond List.prefix_rfl rfl (bytes4_lt magicBytes_lt) le_rfl

theorem isCustomMessage_custom : isCustomMessage beyond (custom t ns) = true := by
  unfold isCustomMessage
  rw [mload_custom]
  decide

theorem getMessageType_custom : getMessageType beyond (custom t ns) = .ok t := by
  have htype : mload beyond (custom t ns) 32 = t.value :=
    mload_of_words (i := 1) beyond List.prefix_rfl rfl t.value_lt (by norm_num)
  unfold getMessageType
  dsimp only
  rw [htype, Nat.mod_eq_of_lt t.value_lt, MessageType.ofValue_value]

/-- The decoders of custom messages accept their first two words. -/
theorem head_custom (t : MessageType) (ns : List ℕ) :
    bytes4At (custom t ns) 0 = .ok magicBytes ∧ uintAt 8 (custom t ns) 32 = .ok t.value :=
  ⟨bytes4At_of_words (i := 0) List.prefix_rfl rfl magicBytes_lt,
    uintAt_of_words (i := 1) List.prefix_rfl rfl t.value_lt (by norm_num)⟩

theorem decodeAmount_encodeAmount (h : amount < 2 ^ 256) :
    decodeAmount (encodeAmount t amount) = .ok amount := by
  obtain ⟨hmagic, htype⟩ := head_custom t [amount]
  have hamount : uintAt 256 (custom t [amount]) 64 = .ok amount :=
    uintAt_of_words (i := 2) List.prefix_rfl rfl h le_rfl
  show decodeAmount (custom t [amount]) = _
  unfold decodeAmount
  rw [require_of (by simp [custom]), ok_bind, hmagic, ok_bind, htype, ok_bind, hamount]

theorem addressOf_val (a : Address) : addressOf (Fin.val a) = a :=
  Fin.ext (Nat.mod_eq_of_lt (Fin.is_lt a))

theorem decodeLock_encodeLock (sender : Address) (h : amount < 2 ^ 256) :
    decodeLock (encodeLock sender amount) = .ok (sender, amount) := by
  obtain ⟨hmagic, htype⟩ := head_custom .lock [Fin.val sender, amount]
  have hsender : uintAt 160 (custom .lock [Fin.val sender, amount]) 64 = .ok (Fin.val sender) :=
    uintAt_of_words (i := 2) List.prefix_rfl rfl (Fin.is_lt sender) (by norm_num)
  have hamount : uintAt 256 (custom .lock [Fin.val sender, amount]) 96 = .ok amount :=
    uintAt_of_words (i := 3) List.prefix_rfl rfl h le_rfl
  show decodeLock (custom .lock [Fin.val sender, amount]) = _
  unfold decodeLock
  rw [require_of (by simp [custom]), ok_bind, hmagic, ok_bind, htype, ok_bind, hsender, ok_bind,
    hamount, ok_bind]
  exact congrArg (fun a => Except.ok (a, amount)) (addressOf_val sender)

end CrossChainMessages

/-! ## OFTCore -/

namespace OftCore

open CrossChainMessages (MessageType custom isCustomMessage magicBytes magicBytes_lt)

/-- `PT_SEND`. -/
def ptSend : ℕ := 0

/-- `abi.encode(PT_SEND, _toAddress, amount)`. -/
def encodeSend (_toAddress : Bytes) (amount : ℕ) : Bytes :=
  words [ptSend, 96, amount] ++ encodeBytes _toAddress

/-- `abi.decode(_payload, (uint16, bytes, uint256))`. -/
def decodeSend (_payload : Bytes) : Tx (Bytes × ℕ) := do
  require (96 ≤ _payload.length) ""
  let _ ← uintAt 16 _payload 0
  let toAddressBytes ← bytesAt _payload (wordAt _payload 32)
  let amount ← uintAt 256 _payload 64
  .ok (toAddressBytes, amount)

/-- `_nonblockingLzReceive`, with the `_sendAck` of an heir. -/
def _nonblockingLzReceive {α : Type} (beyond : ℕ → Byte) (_sendAck : Bytes → Tx α)
    (_payload : Bytes) : Tx α :=
  let packetType := mload beyond _payload 0 % 2 ^ 16
  if packetType = ptSend then _sendAck _payload
  else .error (.reason "OFTCore: unknown packet type")

variable {beyond : ℕ → Byte} {amount : ℕ} {_toAddress : Bytes}

theorem words_prefix_encodeSend (_toAddress : Bytes) (amount : ℕ) :
    words [ptSend, 96, amount] <+: encodeSend _toAddress amount :=
  List.prefix_append _ _

theorem mload_encodeSend (beyond : ℕ → Byte) (_toAddress : Bytes) (amount : ℕ) :
    mload beyond (encodeSend _toAddress amount) 0 = ptSend :=
  mload_of_words (i := 0) beyond (words_prefix_encodeSend _ _) rfl (Nat.two_pow_pos 256) le_rfl

/-- Whatever the recipient, a packet is no custom message. -/
theorem isCustomMessage_encodeSend :
    isCustomMessage beyond (encodeSend _toAddress amount) = false := by
  unfold isCustomMessage
  rw [mload_encodeSend]
  decide

theorem decodeSend_encodeSend (hlen : _toAddress.length < 2 ^ 64) (h : amount < 2 ^ 256) :
    decodeSend (encodeSend _toAddress amount) = .ok (_toAddress, amount) := by
  have hwords := words_prefix_encodeSend _toAddress amount
  have htype : uintAt 16 (encodeSend _toAddress amount) 0 = .ok ptSend :=
    uintAt_of_words (i := 0) hwords rfl (Nat.two_pow_pos 16) (by norm_num)
  have hword : wordAt (encodeSend _toAddress amount) 32 = 96 :=
    wordAt_of_lt (i := 1) (w := 7) hwords rfl (by norm_num) (by norm_num)
  have hbytes : bytesAt (encodeSend _toAddress amount) 96 = .ok _toAddress :=
    bytesAt_words [ptSend, 96, amount] hlen (by norm_num)
  have hamount : uintAt 256 (encodeSend _toAddress amount) 64 = .ok amount :=
    uintAt_of_words (i := 2) hwords rfl h le_rfl
  have hle : 96 ≤ (encodeSend _toAddress amount).length := by
    rw [encodeSend, List.length_append, length_words]
    exact Nat.le_add_right _ _
  unfold decodeSend
  rw [require_of hle, ok_bind, htype, ok_bind, hword, hbytes, ok_bind, hamount, ok_bind]

end OftCore

end Aura
