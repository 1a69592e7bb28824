import Aura.Evm.Others
import Aura.Sidechain.Funding

/-!
# Sidechain : bridge delegates

The BAL behind the fees of a sidechain leaves its L2Coordinator with a `BridgeDelegateSender`,
crosses over a bridge of the sidechain, and reaches a `BridgeDelegateReceiver` on the canonical
chain, which settles the debt of its sidechain with it. The message that tells of the fees goes
another way and may be earlier or later.

The bridges are not part of the sources : a bridge is the class `TokenBridge` over the type of
its state, and `TokenBridge.Lawful` says what the delegates rely on.
-/

open Evm Function

namespace Aura.Sidechain

open Bridge (ChainId)

/-! ## Bridges -/

/-- The bridges between a sidechain and the canonical chain. -/
class TokenBridge (γ : Type) where
  /-- A call of `sender` on the sidechain, to the contract `bridge`, for `dst` on the canonical
  chain. -/
  takes : γ → (bridge sender dst : Address) → (_amount : ℕ) → Erc20 Address →
    Tx (γ × Erc20 Address)
  /-- The `k`-th transfer arrives on the canonical chain. -/
  pays : γ → (k : ℕ) → Erc20 Address → Tx (γ × Erc20 Address)
  /-- What is on its way to an account. -/
  owes : γ → Address → ℕ
  /-- What pays on the canonical chain. -/
  escrow : γ → Address

/-- A bridge takes the amount from its caller alone and later pays what it has taken. -/
structure TokenBridge.Lawful (γ : Type) [TokenBridge γ] : Prop where
  takes : ∀ {b : γ} {bridge sender dst : Address} {n : ℕ} {t : Erc20 Address}
    {r : γ × Erc20 Address}, TokenBridge.takes b bridge sender dst n t = .ok r →
      TokenBridge.owes b dst + n ≤ TokenBridge.owes r.1 dst ∧
      (∀ a, TokenBridge.owes b a ≤ TokenBridge.owes r.1 a) ∧
      t.balanceOf sender ≤ r.2.balanceOf sender + n ∧
      (∀ a, a ≠ sender → t.balanceOf a ≤ r.2.balanceOf a) ∧
      TokenBridge.escrow r.1 = TokenBridge.escrow b
  pays : ∀ {b : γ} {k : ℕ} {t : Erc20 Address} {r : γ × Erc20 Address},
    TokenBridge.pays b k t = .ok r →
      (∀ a, a ≠ TokenBridge.escrow b → TokenBridge.owes b a + t.balanceOf a ≤
        TokenBridge.owes r.1 a + r.2.balanceOf a ∧ t.balanceOf a ≤ r.2.balanceOf a) ∧
      TokenBridge.escrow r.1 = TokenBridge.escrow b

variable {β γ : Type}

/-! ## The delegates -/

/-- The contracts that are a `BridgeDelegateSender`. -/
inductive BridgeDelegateSender.Kind where
  | arbitrum
  | optimism
  | zkevm
  | gnosis
  | polygon
  | oft
  deriving DecidableEq

structure BridgeDelegateSender where
  /-- `address(this)`. -/
  self : Address
  owner : Address
  authorizedKeepers : Address → Bool
  kind : BridgeDelegateSender.Kind
  /-- The token, which is the OFT itself for an `OftBridgeSender`. -/
  crv : Address
  /-- `gatewayRouter`, `l2StandardBridge` or `bridge`. -/
  bridge : Address
  l1Receiver : Address

namespace BridgeDelegateSender

def setL1Receiver (s : BridgeDelegateSender) (sender _l1Receiver : Address) :
    Tx BridgeDelegateSender := do
  require (sender = s.owner) "Ownable: caller is not the owner"
  require (_l1Receiver ≠ 0) "!0"
  .ok { s with l1Receiver := _l1Receiver }

/-- `updateAuthorizedKeepers` of `KeeperRole`. -/
def updateAuthorizedKeepers (s : BridgeDelegateSender) (sender _keeper : Address)
    (_authorized : Bool) : Tx BridgeDelegateSender := do
  require (sender = s.owner) "Ownable: caller is not the owner"
  .ok { s with authorizedKeepers := update s.authorizedKeepers _keeper _authorized }

/-- Who gets the tokens on the canonical chain. What is burned on Polygon goes to the account
that burned it. -/
def destination (s : BridgeDelegateSender) : Address :=
  match s.kind with
  | .polygon => s.self
  | _ => s.l1Receiver

variable [TokenBridge γ]

/-- `send` of `ArbitrumBridgeSender`, `OptimismBridgeSender` and `ZkevmBridgeSender`, which call
`outboundTransfer`, `withdrawTo` and `bridgeAsset`. -/
def approveAndSend (s : BridgeDelegateSender) (b : γ) (t : Erc20 Address) (_amount : ℕ) :
    Tx (γ × Erc20 Address) := do
  require (s.l1Receiver ≠ 0) "L1ReceiverNotSet"
  let t ← t.safeApprove s.self s.bridge 0
  let t ← t.safeApprove s.self s.bridge _amount
  TokenBridge.takes b s.bridge s.self s.l1Receiver _amount t

/-- `send`, or `sendFrom` of an `OftBridgeSender`. -/
def send (s : BridgeDelegateSender) (b : γ) (t : Erc20 Address) (sender : Address)
    (_amount : ℕ) : Tx (γ × Erc20 Address) := do
  require (s.authorizedKeepers sender = true) "!keeper"
  match s.kind with
  | .arbitrum => s.approveAndSend b t _amount
  | .optimism => s.approveAndSend b t _amount
  | .zkevm => s.approveAndSend b t _amount
  | .gnosis => do
    require (s.l1Receiver ≠ 0) "L1ReceiverNotSet"
    -- `IERC677(crv).transferAndCall(bridge, _amount, abi.encodePacked(l1Receiver))`
    TokenBridge.takes b s.bridge s.self s.l1Receiver _amount t
  | .polygon => do
    require (s.l1Receiver ≠ 0) "L1ReceiverNotSet"
    -- `IPolygonBridge(crv).withdraw(_amount)`
    TokenBridge.takes b s.crv s.self s.self _amount t
  | .oft => TokenBridge.takes b s.crv s.self s.l1Receiver _amount t

/-- All that `send` does to balances is a call of the bridge for the destination. -/
theorem send_eq_ok {s : BridgeDelegateSender} {b : γ} {t : Erc20 Address} {sender : Address}
    {n : ℕ} {r : γ × Erc20 Address} (h : s.send b t sender n = .ok r) : ∃ bridge t₁,
      t₁.balanceOf = t.balanceOf ∧
        TokenBridge.takes b bridge s.self s.destination n t₁ = .ok r := by
  have happroves : ∀ {x : Tx (γ × Erc20 Address)}, x = s.approveAndSend b t n → x = .ok r →
      s.destination = s.l1Receiver → ∃ bridge t₁, t₁.balanceOf = t.balanceOf ∧
        TokenBridge.takes b bridge s.self s.destination n t₁ = .ok r := by
    rintro x rfl hx hd
    obtain ⟨-, hx⟩ := require_bind_eq_ok.1 hx
    obtain ⟨t₁, h₁, hx⟩ := bind_eq_ok.1 hx
    obtain ⟨t₂, h₂, hx⟩ := bind_eq_ok.1 hx
    refine ⟨s.bridge, t₂, ?_, hd ▸ hx⟩
    rw [(Erc20.approve_eq_ok (Erc20.safeApprove_eq_ok h₂)).1,
      (Erc20.approve_eq_ok (Erc20.safeApprove_eq_ok h₁)).1]
  obtain ⟨-, h⟩ := require_bind_eq_ok.1 h
  unfold destination at happroves ⊢
  cases hk : s.kind with
  | arbitrum | optimism | zkevm =>
    rw [hk] at h happroves
    exact happroves rfl h rfl
  | gnosis | polygon =>
    rw [hk] at h
    obtain ⟨-, h⟩ := require_bind_eq_ok.1 h
    exact ⟨_, t, rfl, h⟩
  | oft =>
    rw [hk] at h
    exact ⟨_, t, rfl, h⟩

end BridgeDelegateSender

structure BridgeDelegateReceiver where
  /-- `address(this)`. -/
  self : Address
  owner : Address

/-- `BridgeDelegateReceiver.settleFeeDebt`, for the chain `srcChainId`. -/
def BridgeDelegateReceiver.settleFeeDebt (r : BridgeDelegateReceiver) (srcChainId : ChainId)
    (l1 : L1Coordinator β) (sender : Address) (_amount : ℕ) : Tx (L1Coordinator β) := do
  require (sender = r.owner) "Ownable: caller is not the owner"
  l1.settleFeeDebt r.self srcChainId _amount

/-! ## What the coordinators leave alone -/

/-- `distributeL2Fees` takes from its caller alone. -/
def SparesOthers (β : Type) [Booster β] : Prop :=
  ∀ (b : β) (booster sender : Address) (n : ℕ) (tokens : Address → Erc20 Address)
    (r : β × (Address → Erc20 Address)),
    Booster.distributeL2Fees b booster sender n tokens = .ok r →
      ∀ T a, a ≠ sender → (tokens T).balanceOf a ≤ (r.2 T).balanceOf a

/-- No token takes from `a`. -/
def Kept (a : Address) (tokens tokens' : Address → Erc20 Address) : Prop :=
  ∀ T, (tokens T).balanceOf a ≤ (tokens' T).balanceOf a

theorem Kept.refl (a : Address) (tokens : Address → Erc20 Address) : Kept a tokens tokens :=
  fun _ => le_rfl

theorem Kept.trans {a : Address} {t₁ t₂ t₃ : Address → Erc20 Address} (h₁ : Kept a t₁ t₂)
    (h₂ : Kept a t₂ t₃) : Kept a t₁ t₃ :=
  fun T => (h₁ T).trans (h₂ T)

/-- One token changes. -/
theorem Kept.update {a T : Address} {tokens : Address → Erc20 Address} {t : Erc20 Address}
    (h : (tokens T).balanceOf a ≤ t.balanceOf a) : Kept a tokens (update tokens T t) := by
  intro T'
  by_cases hT : T' = T
  · subst hT
    rwa [update_self]
  · rw [update_of_ne hT]

namespace L1Coordinator

variable {s s' : L1Coordinator β} {sender a : Address} {d : Call} {ms : List Message} {c : ChainId}
  {n : ℕ}

theorem settleFeeDebt_tokens (h : s.settleFeeDebt sender c n = .ok s') : ∃ t,
    (s.tokens s.balToken).transferFrom s.self sender s.self n = .ok t ∧
      s'.self = s.self ∧ s'.balToken = s.balToken ∧
        s'.tokens = update s.tokens s.balToken t := by
  obtain ⟨hd, h⟩ := require_bind_eq_ok.1 h
  obtain ⟨_, -, h⟩ := bind_eq_ok.1 h
  obtain ⟨-, h⟩ := require_bind_eq_ok.1 h
  obtain ⟨_, -, h⟩ := bind_eq_ok.1 h
  obtain ⟨t, ht, h⟩ := bind_eq_ok.1 h
  cases h
  rw [hd] at ht
  exact ⟨t, ht, rfl, rfl, rfl⟩

/-- What `distributeAura` does to the tokens, after the Booster : AURA leaves the contract. -/
theorem distributeAura_tokens [Booster β] (h : s.distributeAura sender c = .ok (s', ms)) :
    ∃ r t, Booster.distributeL2Fees s.boosters s.booster s.self
        (s.feeDebtOf c - s.distributedFeeDebtOf c) s.tokens = .ok r ∧
      s'.self = s.self ∧ s'.balToken = s.balToken ∧ s'.auraToken = s.auraToken ∧
        s'.booster = s.booster ∧ s'.tokens = update r.2 s.auraToken t ∧
          ∀ a, a ≠ s.self → (r.2 s.auraToken).balanceOf a ≤ t.balanceOf a := by
  obtain ⟨-, h⟩ := require_bind_eq_ok.1 h
  obtain ⟨x, hx, h⟩ := bind_eq_ok.1 h
  obtain ⟨-, rfl⟩ := usub_eq_ok.1 hx
  obtain ⟨y, -, h⟩ := bind_eq_ok.1 h
  unfold _distributeAura at h
  obtain ⟨s₁, hs₁, h⟩ := bind_eq_ok.1 h
  obtain ⟨r, hr, hs₁⟩ := bind_eq_ok.1 hs₁
  cases hs₁
  obtain ⟨-, h⟩ := require_bind_eq_ok.1 h
  obtain ⟨_, -, h⟩ := bind_eq_ok.1 h
  obtain ⟨_, -, h⟩ := bind_eq_ok.1 h
  obtain ⟨_, -, h⟩ := bind_eq_ok.1 h
  obtain ⟨-, h⟩ := require_bind_eq_ok.1 h
  obtain ⟨_, -, h⟩ := bind_eq_ok.1 h
  obtain ⟨s₂, hs₂, h⟩ := bind_eq_ok.1 h
  obtain ⟨-, -, h⟩ := bind_eq_ok.1 h
  obtain ⟨⟨s₃, m⟩, hs₃, h⟩ := bind_eq_ok.1 h
  cases h
  obtain ⟨t₂, rfl, ht₂⟩ := payTreasury_eq_ok hs₂
  obtain ⟨t₃, _, rfl, ht₃, -, -⟩ := sendAura_eq_ok hs₃
  refine ⟨r, t₃, hr, rfl, rfl, rfl, rfl, update_idem _ _ _, fun a ha => ?_⟩
  dsimp only at ht₂ ht₃
  rw [update_self] at ht₃
  have hsent : t₂.balanceOf a ≤ t₃.balanceOf a := by
    rw [ht₃]
    exact Erc20.le_move _ _ ha.symm
  refine le_trans ?_ hsent
  split_ifs at ht₂ with hpos
  · rw [ht₂]
    exact Erc20.le_move _ _ ha.symm
  · rw [ht₂]

/-- A call takes from nobody but the contract and its sender. -/
theorem exec_kept [Booster β] (hb : SparesOthers β) (ha : a ≠ s.self) (hs : a ≠ sender)
    (h : s.exec sender d = .ok (s', ms)) :
    s'.self = s.self ∧ s'.balToken = s.balToken ∧ Kept a s.tokens s'.tokens := by
  cases d with
  | distributeAura c =>
    obtain ⟨r, t, hr, hself, hbal, -, -, htokens, hkept⟩ := distributeAura_tokens h
    have hbooster : Kept a s.tokens r.2 := fun T => hb _ _ _ _ _ _ hr T a ha
    rw [htokens]
    exact ⟨hself, hbal, hbooster.trans (.update (hkept a ha))⟩
  | settleFeeDebt c n =>
    obtain ⟨hx, -⟩ := quiet_eq_ok h
    obtain ⟨t, ht, hself, hbal, htokens⟩ := settleFeeDebt_tokens hx
    refine ⟨hself, hbal, ?_⟩
    rw [htokens]
    refine .update ?_
    rw [(Erc20.transferFrom_eq_ok ht).2.2.1]
    exact Erc20.le_move _ _ hs.symm
  | transferOwnership _ | setRewardMultiplier _ =>
    obtain ⟨hx, -⟩ := quiet_eq_ok h
    obtain ⟨-, h⟩ := require_bind_eq_ok.1 (onlyOwner_bind_eq_ok hx)
    cases h
    exact ⟨rfl, rfl, .refl _ _⟩
  | _ =>
    obtain ⟨hx, -⟩ := quiet_eq_ok h
    have h := onlyOwner_bind_eq_ok hx
    cases h
    exact ⟨rfl, rfl, .refl _ _⟩

end L1Coordinator

namespace L2Coordinator

variable {s s' : L2Coordinator} {sender a : Address} {d : Call} {ms : List Message} {c : ChainId}
  {n : ℕ}

theorem queueNewRewards_tokens {k : ℕ} (h : s.queueNewRewards sender n k = .ok s') : ∃ t,
    (s.tokens s.balToken).transfer s.self s.bridgeDelegate
        ((s.tokens s.balToken).balanceOf s.self) = .ok t ∧
      s'.tokens = update s.tokens s.balToken t := by
  obtain ⟨-, h⟩ := require_bind_eq_ok.1 h
  obtain ⟨-, h⟩ := require_bind_eq_ok.1 h
  obtain ⟨_, -, h⟩ := bind_eq_ok.1 h
  obtain ⟨_, -, h⟩ := bind_eq_ok.1 h
  obtain ⟨t, ht, h⟩ := bind_eq_ok.1 h
  cases h
  exact ⟨t, ht, rfl⟩

/-- A call takes from nobody but the contract. -/
theorem exec_kept (ha : a ≠ s.self) (h : s.exec c sender d = .ok (s', ms)) :
    Kept a s.tokens s'.tokens := by
  cases d with
  | mint dst n =>
    obtain ⟨hx, -⟩ := quiet_eq_ok h
    obtain ⟨-, hx⟩ := require_bind_eq_ok.1 hx
    obtain ⟨⟨s₁, amount⟩, hr, hx⟩ := bind_eq_ok.1 hx
    obtain ⟨-, -, rfl⟩ := takeRewards_eq_ok hr
    obtain ⟨t, ht, hx⟩ := bind_eq_ok.1 hx
    cases hx
    refine .update ?_
    rw [(Erc20.transfer_eq_ok ht).2.2.2.1]
    exact Erc20.le_move _ _ ha.symm
  | queueNewRewards n k =>
    obtain ⟨hx, -⟩ := quiet_eq_ok h
    obtain ⟨t, ht, htokens⟩ := queueNewRewards_tokens hx
    rw [htokens]
    refine .update ?_
    rw [(Erc20.transfer_eq_ok ht).2.2.2.1]
    exact Erc20.le_move _ _ ha.symm
  | notifyFees =>
    obtain ⟨⟨s₁, p⟩, hn, h⟩ := bind_eq_ok.1 h
    obtain ⟨-, -, hn⟩ := bind_eq_ok.1 hn
    cases hn
    cases h
    exact .refl _ _
  | transferOwnership _ | init _ _ =>
    obtain ⟨hx, -⟩ := quiet_eq_ok h
    obtain ⟨-, h⟩ := require_bind_eq_ok.1 (onlyOwner_bind_eq_ok hx)
    cases h
    exact .refl _ _
  | _ =>
    obtain ⟨hx, -⟩ := quiet_eq_ok h
    have h := onlyOwner_bind_eq_ok hx
    cases h
    exact .refl _ _

end L2Coordinator

/-! ## The whole way -/

structure Bridged (β γ : Type) where
  net : Coordinators β
  bridges : ChainId → γ
  senders : ChainId → BridgeDelegateSender
  receivers : ChainId → BridgeDelegateReceiver

namespace Bridged

inductive Call where
  /-- A call of the coordinators or of the messages between them. -/
  | net (c : Sidechain.Call)
  | setL1Receiver (chain : ChainId) (_l1Receiver : Address)
  | updateAuthorizedKeepers (chain : ChainId) (_keeper : Address) (_authorized : Bool)
  | send (chain : ChainId) (_amount : ℕ)
  /-- The bridge of a chain delivers. -/
  | pays (chain : ChainId) (k : ℕ)
  | settleFeeDebt (chain : ChainId) (_amount : ℕ)
  deriving DecidableEq

variable [Booster β] [TokenBridge γ]

/-- Another delegate on `chain`. -/
def setSender (n : Bridged β γ) (chain : ChainId) (s : BridgeDelegateSender) : Bridged β γ :=
  { n with senders := update n.senders chain s }

/-- A delegate sends BAL away. -/
def send (n : Bridged β γ) (chain : ChainId) (sender : Address) (_amount : ℕ) :
    Tx (Bridged β γ) := do
  let s := n.senders chain
  let l2 := n.net.l2 chain
  let r ← s.send (n.bridges chain) (l2.tokens s.crv) sender _amount
  .ok { n with
    net := n.net.setL2 chain { l2 with tokens := update l2.tokens s.crv r.2 }
    bridges := update n.bridges chain r.1 }

/-- BAL arrives on the canonical chain. -/
def pays (n : Bridged β γ) (chain : ChainId) (k : ℕ) : Tx (Bridged β γ) := do
  let l1 := n.net.l1
  let r ← TokenBridge.pays (n.bridges chain) k (l1.tokens l1.balToken)
  .ok { n with
    net := { n.net with l1 := { l1 with tokens := update l1.tokens l1.balToken r.2 } }
    bridges := update n.bridges chain r.1 }

def settleFeeDebt (n : Bridged β γ) (chain : ChainId) (sender : Address) (_amount : ℕ) :
    Tx (Bridged β γ) := do
  let l1 ← (n.receivers chain).settleFeeDebt chain n.net.l1 sender _amount
  .ok { n with net := { n.net with l1 } }

/-- Run a call of `sender`. -/
def exec (n : Bridged β γ) (sender : Address) : Call → Tx (Bridged β γ)
  | .net c => do
    let net ← n.net.exec sender c
    .ok { n with net }
  | .setL1Receiver chain a => do
    let s ← (n.senders chain).setL1Receiver sender a
    .ok (n.setSender chain s)
  | .updateAuthorizedKeepers chain a b => do
    let s ← (n.senders chain).updateAuthorizedKeepers sender a b
    .ok (n.setSender chain s)
  | .send chain k => n.send chain sender k
  | .pays chain k => n.pays chain k
  | .settleFeeDebt chain k => n.settleFeeDebt chain sender k

/-- The receivers make no call but `settleFeeDebt`. -/
def IsCaller (n : Bridged β γ) (a : Address) : Call → Prop
  | .net c => n.net.IsCaller a c ∧ ∀ chain, a ≠ (n.receivers chain).self
  | _ => True

/-- The BAL of a delegate on its sidechain. -/
def held (n : Bridged β γ) (c : ChainId) : ℕ :=
  ((n.net.l2 c).tokens (n.senders c).crv).balanceOf (n.senders c).self

/-- The BAL of a receiver. -/
def received (n : Bridged β γ) (c : ChainId) : ℕ :=
  (n.net.l1.tokens n.net.l1.balToken).balanceOf (n.receivers c).self

/-- What a bridge owes a receiver. -/
def crossing (n : Bridged β γ) (c : ChainId) : ℕ :=
  TokenBridge.owes (n.bridges c) (n.receivers c).self

/-- How the owners have set up a chain when fees are queued and BAL is sent : the coordinator
holds the fees, as the Booster has paid them, and sends them to the delegate, and the delegate
sends to the receiver. -/
def Configured (n : Bridged β γ) : Call → Prop
  | .net (.l2 c (.queueNewRewards _fees _)) =>
    let s := n.net.l2 c
    s.bridgeDelegate = (n.senders c).self ∧ s.balToken = (n.senders c).crv ∧
      _fees ≤ (s.tokens s.balToken).balanceOf s.self
  | .send c _ => (n.senders c).destination = (n.receivers c).self
  | _ => True

/-- Nobody takes BAL from the delegates. -/
structure Elsewhere (n n' : Bridged β γ) : Prop where
  net : n.net.Elsewhere n'.net
  senders : n'.senders = n.senders
  receivers : n'.receivers = n.receivers
  held : ∀ c, n.held c ≤ n'.held c
  received : ∀ c, n.received c ≤ n'.received c
  crossing : ∀ c, n.crossing c ≤ n'.crossing c
  escrow : ∀ c, TokenBridge.escrow (n'.bridges c) = TokenBridge.escrow (n.bridges c)

/-- The contracts are at different addresses. -/
structure Apart (n : Bridged β γ) : Prop where
  sender_ne : ∀ c, (n.senders c).self ≠ (n.net.l2 c).self
  receiver_ne : ∀ c, (n.receivers c).self ≠ n.net.l1.self
  l1_ne_zero : n.net.l1.self ≠ 0
  receiver_ne_zero : ∀ c, (n.receivers c).self ≠ 0
  receiver_inj : ∀ c c', (n.receivers c).self = (n.receivers c').self → c = c'
  escrow_ne : ∀ c c', (n.receivers c).self ≠ TokenBridge.escrow (n.bridges c')

/-- The contracts were just deployed. -/
structure Deployed (n : Bridged β γ) : Prop where
  net : n.net.Deployed
  apart : n.Apart

/-- A successful call. -/
structure Event where
  sender : Address
  call : Call
  deriving DecidableEq

/-- A run, with its log. -/
inductive Run : List Event → Bridged β γ → Prop
  | deployed {n : Bridged β γ} : Deployed n → Run [] n
  | elsewhere {log : List Event} {n n' : Bridged β γ} :
      Run log n → Elsewhere n n' → Run log n'
  | call {log : List Event} {n n' : Bridged β γ} {sender : Address} {c : Call} :
      Run log n → n.IsCaller sender c → n.Configured c → n.exec sender c = .ok n' →
        Run (log ++ [⟨sender, c⟩]) n'

/-- The fees that a call queues on `c`. -/
def Call.feesOn (c : ChainId) : Call → ℕ
  | .net d => d.feesOn c
  | _ => 0

/-- The fees ever queued on `c`. -/
def queued (log : List Event) (c : ChainId) : ℕ :=
  (log.map fun e => e.call.feesOn c).sum

theorem queued_append (log : List Event) (e : Event) (c : ChainId) :
    queued (log ++ [e]) c = queued log c + e.call.feesOn c := by
  unfold queued
  rw [List.map_append, List.sum_append, List.map_singleton, List.sum_singleton]

/-! ### The coordinators -/

/-- What a call of the coordinators leaves alone. -/
structure Spared (n n' : Coordinators β) (receiver : Address) : Prop where
  l1_self : n'.l1.self = n.l1.self
  balToken : n'.l1.balToken = n.l1.balToken
  l1 : Kept receiver n.l1.tokens n'.l1.tokens
  l2_self : ∀ c, (n'.l2 c).self = (n.l2 c).self
  l2 : ∀ c a, a ≠ (n.l2 c).self → Kept a (n.l2 c).tokens (n'.l2 c).tokens
  settled : ∀ c, n.l1.settledFeeDebtOf c ≤ n'.l1.settledFeeDebtOf c

variable {n n' : Coordinators β} {receiver sender : Address}

omit [Booster β] in
theorem Spared.refl (n : Coordinators β) (receiver : Address) : Spared n n receiver :=
  ⟨rfl, rfl, .refl _ _, fun _ => rfl, fun _ _ _ => .refl _ _, fun _ => le_rfl⟩

omit [Booster β] in
theorem setL2_l1 {c : ChainId} {s : L2Coordinator} : (n.setL2 c s).l1 = n.l1 :=
  rfl

omit [Booster β] in
/-- A coordinator of a sidechain changes. -/
theorem spared_setL2 {c : ChainId} {s : L2Coordinator} (hself : s.self = (n.l2 c).self)
    (h : ∀ a, a ≠ (n.l2 c).self → Kept a (n.l2 c).tokens s.tokens) :
    Spared n (n.setL2 c s) receiver := by
  refine ⟨rfl, rfl, .refl _ _, fun c' => ?_, fun c' a ha => ?_, fun _ => le_rfl⟩
  all_goals by_cases hc : c' = c
  · subst hc
    rw [setL2_l2_self]
    exact hself
  · rw [setL2_l2_of_ne (Ne.symm hc)]
  · subst hc
    rw [setL2_l2_self]
    exact h a ha
  · rw [setL2_l2_of_ne (Ne.symm hc)]
    exact .refl _ _

omit [Booster β] in
theorem receive_spared {m : Message} (h : n.receive m = .ok n') : Spared n n' receiver := by
  cases m with
  | toL1 c p =>
    obtain ⟨l1, hp, h⟩ := bind_eq_ok.1 h
    cases h
    cases p with
    | feesCallback k =>
      cases hp
      exact .refl n receiver
    | fees k =>
      obtain ⟨x, -, hp⟩ := bind_eq_ok.1 hp
      cases hp
      exact ⟨rfl, rfl, .refl _ _, fun _ => rfl, fun _ _ _ => .refl _ _, fun _ => le_rfl⟩
  | toL2 c p =>
    obtain ⟨s, hp, h⟩ := bind_eq_ok.1 h
    cases h
    cases p with
    | fees k =>
      cases hp
      exact spared_setL2 rfl fun _ _ => .refl _ _
    | feesCallback k =>
      obtain ⟨x, -, hp⟩ := bind_eq_ok.1 hp
      cases hp
      exact spared_setL2 rfl fun _ _ => .refl _ _
  | oft c bs k =>
    obtain ⟨s, hp, h⟩ := bind_eq_ok.1 h
    cases h
    obtain ⟨dst, t, -, ht, rfl⟩ := L2Coordinator.creditOft_eq_ok hp
    refine spared_setL2 rfl fun a _ => .update ?_
    -- a mint takes from nobody
    rw [(Erc20.mint_eq_ok ht).2.1]
    by_cases ha : a = dst
    · rw [ha, update_self]
      exact Nat.le_add_right _ _
    · rw [update_of_ne ha]

theorem exec_spared {c : Sidechain.Call} (hb : SparesOthers β) (hc : n.IsCaller sender c)
    (h1 : receiver ≠ n.l1.self) (hs : receiver ≠ sender) (h : n.exec sender c = .ok n') :
    Spared n n' receiver := by
  cases c with
  | l1 d =>
    obtain ⟨⟨s, ms⟩, hx, h⟩ := bind_eq_ok.1 h
    cases h
    obtain ⟨hself, hbal, hkept⟩ := L1Coordinator.exec_kept hb h1 hs hx
    refine ⟨hself, hbal, hkept, fun _ => rfl, fun _ _ _ => .refl _ _, fun c => ?_⟩
    show n.l1.settledFeeDebtOf c ≤ s.settledFeeDebtOf c
    cases L1Coordinator.exec_effect hc.2 hx with
    | settings hd _ => rw [hd.settledFeeDebtOf]
    | @settled c' k hd _ =>
      rw [hd.settledFeeDebtOf]
      by_cases hcc : c = c'
      · rw [hcc, update_self]
        exact Nat.le_add_right _ _
      · rw [update_of_ne hcc]
    | distributed hd => rw [hd.settledFeeDebtOf]
  | l2 c d =>
    obtain ⟨⟨s, ms⟩, hx, h⟩ := bind_eq_ok.1 h
    cases h
    have hspared : Spared n (n.setL2 c s) receiver :=
      spared_setL2 (L2Coordinator.exec_effect hc.1 hx).self
        fun _ ha => L2Coordinator.exec_kept ha hx
    obtain ⟨h1, h2, h3, h4, h5, h6⟩ := hspared
    exact ⟨h1, h2, h3, h4, h5, h6⟩
  | lzReceive m =>
    obtain ⟨-, h⟩ := require_bind_eq_ok.1 h
    obtain ⟨-, h⟩ := require_bind_eq_ok.1 h
    cases hr : (n.withMail (n.toMail.deliver m)).receive m with
    | ok n₁ =>
      rw [hr] at h
      cases h
      have hspared : Spared _ _ receiver := receive_spared hr
      obtain ⟨h1, h2, h3, h4, h5, h6⟩ := hspared
      exact ⟨h1, h2, h3, h4, h5, h6⟩
    | error e =>
      rw [hr] at h
      cases h
      exact ⟨rfl, rfl, .refl _ _, fun _ => rfl, fun _ _ _ => .refl _ _, fun _ => le_rfl⟩
  | lzReceiveOutOfGas m =>
    obtain ⟨-, h⟩ := require_bind_eq_ok.1 h
    obtain ⟨-, h⟩ := require_bind_eq_ok.1 h
    cases h
    exact ⟨rfl, rfl, .refl _ _, fun _ => rfl, fun _ _ _ => .refl _ _, fun _ => le_rfl⟩
  | retryMessage m =>
    obtain ⟨-, h⟩ := require_bind_eq_ok.1 h
    have hspared : Spared _ _ receiver := receive_spared h
    obtain ⟨h1, h2, h3, h4, h5, h6⟩ := hspared
    exact ⟨h1, h2, h3, h4, h5, h6⟩

end Bridged

end Aura.Sidechain
