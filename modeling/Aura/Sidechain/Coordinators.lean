import Aura.Mail
import Aura.Sidechain.L1Coordinator

/-!
# Sidechain : runs of the coordinators

The L1Coordinator, the L2Coordinator of every sidechain and the messages between them. A
message that was sent is delivered once, in any order, and also the two messages of a
distribution are independent. Its receipt succeeds or fails, by a revert or for lack of gas;
a failed message is stored and can be retried until it succeeds. Trusted remotes are those
of the same deployment.

A run has the log of its successful calls. Each of them meets a condition `P`, which says
how the owners configure the contracts.
-/

open Evm Function

namespace Aura.Sidechain

open Bridge (ChainId)

variable {β : Type}

structure Coordinators (β : Type) extends Mail Message where
  l1 : L1Coordinator β
  l2 : ChainId → L2Coordinator

inductive Call where
  | l1 (c : L1Coordinator.Call)
  | l2 (chain : ChainId) (c : L2Coordinator.Call)
  | lzReceive (m : Message)
  | lzReceiveOutOfGas (m : Message)
  | retryMessage (m : Message)
  deriving DecidableEq

namespace Coordinators

/-- Another state of the coordinator on `chain`. -/
def setL2 (n : Coordinators β) (chain : ChainId) (s : L2Coordinator) : Coordinators β :=
  { n with l2 := update n.l2 chain s }

/-- The same contracts with other messages. -/
def withMail (n : Coordinators β) (mail : Mail Message) : Coordinators β :=
  { mail with l1 := n.l1, l2 := n.l2 }

/-- Messages are sent. -/
def sent (n : Coordinators β) (ms : List Message) : Coordinators β :=
  n.withMail (n.toMail.send ms)

/-- Whether the receiver of a message trusts its sender. -/
def trusts (n : Coordinators β) : Message → Bool
  | .toL1 c _ => n.l1.trustedRemoteLookup c
  | .toL2 c _ => (n.l2 c).trustedRemoteLookup (n.l2 c).canonicalChainId
  | .oft _ _ _ => true

/-- `_nonblockingLzReceive` of the receiver of a message. -/
def receive (n : Coordinators β) : Message → Tx (Coordinators β)
  | .toL1 c p => do
    let l1 ← n.l1._nonblockingLzReceive c p
    .ok { n with l1 }
  | .toL2 c p => do
    let s ← (n.l2 c)._nonblockingLzReceive p
    .ok (n.setL2 c s)
  | .oft c bs k => do
    let s ← (n.l2 c).creditOft bs k
    .ok (n.setL2 c s)

/-- `lzReceive` : a message that cannot be processed is stored. -/
def lzReceive (n : Coordinators β) (m : Message) : Tx (Coordinators β) := do
  require (m ∈ n.inFlight) "LayerZero: no such message"
  require (n.trusts m = true) "LzApp: invalid source sending contract"
  match (n.withMail (n.toMail.deliver m)).receive m with
  | .ok n' => .ok n'
  | .error _ => .ok (n.withMail (n.toMail.fail m))

/-- `lzReceive` with too little gas to process the message. -/
def lzReceiveOutOfGas (n : Coordinators β) (m : Message) : Tx (Coordinators β) := do
  require (m ∈ n.inFlight) "LayerZero: no such message"
  require (n.trusts m = true) "LzApp: invalid source sending contract"
  .ok (n.withMail (n.toMail.fail m))

/-- `retryMessage`. -/
def retryMessage (n : Coordinators β) (m : Message) : Tx (Coordinators β) := do
  require (m ∈ n.failed) "NonblockingLzApp: no stored message"
  (n.withMail (n.toMail.retry m)).receive m

/-- Run a call of `sender`. -/
def exec [Booster β] (n : Coordinators β) (sender : Address) : Call → Tx (Coordinators β)
  | .l1 c => do
    let r ← n.l1.exec sender c
    .ok ({ n with l1 := r.1 }.sent r.2)
  | .l2 chain c => do
    let r ← (n.l2 chain).exec chain sender c
    .ok ((n.setL2 chain r.1).sent r.2)
  | .lzReceive m => n.lzReceive m
  | .lzReceiveOutOfGas m => n.lzReceiveOutOfGas m
  | .retryMessage m => n.retryMessage m

/-- Who can make a call : not the zero account, nor the contract itself. -/
def IsCaller (n : Coordinators β) (a : Address) : Call → Prop
  | .l1 _ => a ≠ 0 ∧ a ≠ n.l1.self
  | .l2 chain _ => a ≠ 0 ∧ a ≠ (n.l2 chain).self
  | _ => True

instance (n : Coordinators β) (a : Address) : (c : Call) → Decidable (n.IsCaller a c)
  | .l1 _ => inferInstanceAs (Decidable (_ ∧ _))
  | .l2 _ _ => inferInstanceAs (Decidable (_ ∧ _))
  | .lzReceive _ => inferInstanceAs (Decidable True)
  | .lzReceiveOutOfGas _ => inferInstanceAs (Decidable True)
  | .retryMessage _ => inferInstanceAs (Decidable True)

/-- What happens around the contracts. -/
structure Elsewhere (n n' : Coordinators β) : Prop where
  l1 : n.l1.Elsewhere n'.l1
  l2 : ∀ c, (n.l2 c).Elsewhere (n'.l2 c)
  mail : n'.toMail = n.toMail

/-- The contracts were just deployed. -/
structure Deployed (n : Coordinators β) : Prop where
  l1 : n.l1.Deployed
  l2 : ∀ c, (n.l2 c).Deployed
  mail : n.toMail = .empty

end Coordinators

open Coordinators

/-- A successful call. -/
structure Event where
  sender : Address
  call : Call
  deriving DecidableEq

variable [Booster β]

/-- A run whose calls meet `P`, with their log. -/
inductive Run (P : Coordinators β → Call → Prop) : List Event → Coordinators β → Prop
  | deployed {n : Coordinators β} : Deployed n → Run P [] n
  | elsewhere {log : List Event} {n n' : Coordinators β} :
      Run P log n → Elsewhere n n' → Run P log n'
  | call {log : List Event} {n n' : Coordinators β} {sender : Address} {c : Call} :
      Run P log n → n.IsCaller sender c → P n c → n.exec sender c = .ok n' →
        Run P (log ++ [⟨sender, c⟩]) n'

/-! ## Outstanding messages -/

/-- The sum of `f` over the messages that are in flight or failed. -/
def outstanding (f : Message → ℕ) (n : Coordinators β) : ℕ :=
  n.toMail.outstanding f

variable {n n' : Coordinators β} {m : Message}

omit [Booster β] in
theorem outstanding_sent (f : Message → ℕ) (n : Coordinators β) (ms : List Message) :
    outstanding f (n.sent ms) = outstanding f n + (ms.map f).sum :=
  n.toMail.outstanding_send f ms

omit [Booster β] in
theorem outstanding_sent_of_forall (n : Coordinators β) {f : Message → ℕ} {ms : List Message}
    (h : ∀ m ∈ ms, f m = 0) : outstanding f (n.sent ms) = outstanding f n :=
  n.toMail.outstanding_send_of_forall f h

omit [Booster β] in
theorem outstanding_withMail (f : Message → ℕ) (n : Coordinators β) (mail : Mail Message) :
    outstanding f (n.withMail mail) = mail.outstanding f :=
  rfl

omit [Booster β] in
theorem outstanding_congr {f : Message → ℕ} (h : n'.toMail = n.toMail) :
    outstanding f n' = outstanding f n :=
  congrArg (Mail.outstanding f) h

/-- A quantity `g` of the contracts that the receipt of a message raises by `f` of it. -/
structure Conserved (f : Message → ℕ) (g : Coordinators β → ℕ) : Prop where
  receive : ∀ {n n' m}, n.receive m = .ok n' → g n' = g n + f m
  messages : ∀ (n : Coordinators β) (mail : Mail Message), g (n.withMail mail) = g n

variable {f : Message → ℕ} {g : Coordinators β → ℕ}

omit [Booster β] in
/-- The receipt of a message sends none. -/
theorem receive_toMail (h : n.receive m = .ok n') : n'.toMail = n.toMail := by
  cases m with
  | toL1 c p =>
    obtain ⟨l1, -, h⟩ := bind_eq_ok.1 h
    cases h
    rfl
  | toL2 c p =>
    obtain ⟨s, -, h⟩ := bind_eq_ok.1 h
    cases h
    rfl
  | oft c bs k =>
    obtain ⟨s, -, h⟩ := bind_eq_ok.1 h
    cases h
    rfl

omit [Booster β] in
theorem Conserved.receive_add (h : Conserved f g) (hx : n.receive m = .ok n') :
    g n' + outstanding f n' = g n + outstanding f n + f m := by
  rw [h.receive hx, outstanding_congr (receive_toMail hx)]
  omega

omit [Booster β] in
/-- A delivery keeps the sum of the quantity and what is outstanding of it. -/
theorem Conserved.lzReceive (h : Conserved f g) (hx : n.lzReceive m = .ok n') :
    g n' + outstanding f n' = g n + outstanding f n := by
  obtain ⟨hm, hx⟩ := require_bind_eq_ok.1 hx
  obtain ⟨-, hx⟩ := require_bind_eq_ok.1 hx
  have hg := h.messages n (n.toMail.deliver m)
  cases hr : (n.withMail (n.toMail.deliver m)).receive m with
  | ok n₁ =>
    rw [hr] at hx
    cases hx
    rw [h.receive_add hr, hg, outstanding_withMail, Nat.add_assoc, Mail.outstanding_deliver f hm]
    rfl
  | error e =>
    rw [hr] at hx
    cases hx
    rw [h.messages n, outstanding_withMail, Mail.outstanding_fail f hm]
    rfl

omit [Booster β] in
theorem Conserved.lzReceiveOutOfGas (h : Conserved f g) (hx : n.lzReceiveOutOfGas m = .ok n') :
    g n' + outstanding f n' = g n + outstanding f n := by
  obtain ⟨hm, hx⟩ := require_bind_eq_ok.1 hx
  obtain ⟨-, hx⟩ := require_bind_eq_ok.1 hx
  cases hx
  rw [h.messages n, outstanding_withMail, Mail.outstanding_fail f hm]
  rfl

omit [Booster β] in
theorem Conserved.retryMessage (h : Conserved f g) (hx : n.retryMessage m = .ok n') :
    g n' + outstanding f n' = g n + outstanding f n := by
  obtain ⟨hm, hx⟩ := require_bind_eq_ok.1 hx
  rw [h.receive_add hx, h.messages n, outstanding_withMail, Nat.add_assoc,
    Mail.outstanding_retry f hm]
  rfl

/-! ## Computed runs -/

/-- Some calls that meet `P`, one after the other. -/
def play (P : Coordinators β → Call → Prop) [∀ n c, Decidable (P n c)] :
    Coordinators β → List Event → Tx (Coordinators β)
  | n, [] => .ok n
  | n, e :: log =>
    if n.IsCaller e.sender e.call ∧ P n e.call then n.exec e.sender e.call >>= (play P · log)
    else .error .outOfGas

variable {P : Coordinators β → Call → Prop} [∀ n c, Decidable (P n c)]

theorem Run.play {log₀ log : List Event} (h : Run P log₀ n)
    (hp : Sidechain.play P n log = .ok n') : Run P (log₀ ++ log) n' := by
  induction log generalizing n log₀ with
  | nil =>
    cases hp
    rwa [List.append_nil]
  | cons e log ih =>
    unfold Sidechain.play at hp
    split_ifs at hp with hc
    obtain ⟨n₁, hx, hp⟩ := bind_eq_ok.1 hp
    rw [List.append_cons]
    exact ih (h.call hc.1 hc.2 hx) hp

end Aura.Sidechain
