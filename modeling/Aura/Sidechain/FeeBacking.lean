import Aura.Sidechain.BridgeDelegates

/-!
# Sidechain : fees are backed

Whatever the order of the messages of the coordinators and the transfers of the bridges, the
fees of a sidechain that were not settled are covered by the BAL of its two delegates and of
the bridge in between (`fees_backed`). So once the BAL has arrived, all of the debt can be
settled (`debt_settles`).
-/

open Evm Function

namespace Aura.Sidechain

open Bridge (ChainId)

variable {β γ : Type}

namespace Bridged

variable [Booster β] [TokenBridge γ] {n n' : Coordinators β} {sender : Address}

/-! ### The cover -/

variable {m m' : Bridged β γ} {log : List Event}

omit [Booster β] in
/-- The static addresses stay. -/
theorem Apart.of_eq (h : m.Apart) (hs : ∀ c, (m'.senders c).self = (m.senders c).self)
    (hr : m'.receivers = m.receivers) (h1 : m'.net.l1.self = m.net.l1.self)
    (h2 : ∀ c, (m'.net.l2 c).self = (m.net.l2 c).self)
    (he : ∀ c, TokenBridge.escrow (m'.bridges c) = TokenBridge.escrow (m.bridges c)) :
    m'.Apart := by
  constructor
  · intro c
    rw [hs, h2]
    exact h.sender_ne c
  · rw [hr, h1]
    exact h.receiver_ne
  · rw [h1]
    exact h.l1_ne_zero
  · rw [hr]
    exact h.receiver_ne_zero
  · rw [hr]
    exact h.receiver_inj
  · intro c c'
    rw [hr, he]
    exact h.escrow_ne c c'

variable (m) in
/-- What covers the fees of `c`. -/
def cover (c : ChainId) : ℕ :=
  m.net.l1.settledFeeDebtOf c + m.held c + m.crossing c + m.received c

/-- The fees of every chain are covered. -/
structure Backed (log : List Event) (m : Bridged β γ) : Prop where
  apart : m.Apart
  covered : ∀ c, queued log c ≤ m.cover c

omit [Booster β] in
theorem Backed.deployed (h : Deployed m) : Backed [] m :=
  ⟨h.apart, fun _ => Nat.zero_le _⟩

omit [Booster β] in
theorem Backed.elsewhere (h : Backed log m) (he : Elsewhere m m') : Backed log m' := by
  obtain ⟨tokens, boosters, hl1⟩ := he.net.l1
  have hself : ∀ c, (m'.net.l2 c).self = (m.net.l2 c).self := fun c => by
    obtain ⟨tokens₂, hl2, -⟩ := he.net.l2 c
    rw [hl2]
  refine ⟨h.apart.of_eq (fun c => by rw [he.senders]) he.receivers (by rw [hl1]) hself he.escrow,
    fun c => (h.covered c).trans ?_⟩
  have hset : m'.net.l1.settledFeeDebtOf c = m.net.l1.settledFeeDebtOf c := by rw [hl1]
  have hheld := he.held c
  have hreceived := he.received c
  have hcrossing := he.crossing c
  unfold cover
  omega

omit [Booster β] [TokenBridge γ] in
/-- What a coordinator sends to the delegate covers the fees that it queues. -/
theorem held_queueNewRewards {c : ChainId} {k l : ℕ} {s : L2Coordinator}
    (hne : (m.senders c).self ≠ (m.net.l2 c).self)
    (hconf : m.Configured (.net (.l2 c (.queueNewRewards k l))))
    (h : (m.net.l2 c).queueNewRewards sender k l = .ok s) :
    m.held c + k ≤ (s.tokens (m.senders c).crv).balanceOf (m.senders c).self := by
  obtain ⟨hdelegate, htoken, hle⟩ := hconf
  obtain ⟨t, ht, htokens⟩ := L2Coordinator.queueNewRewards_tokens h
  have hb := (Erc20.transfer_eq_ok ht).2.2.2.1
  rw [htokens, ← htoken, update_self, hb, hdelegate, move_dst _ _ hne.symm, htoken]
  rw [htoken] at hle
  exact Nat.add_le_add_left hle _

omit [TokenBridge γ] in
/-- A call raises what the delegate holds by the fees that it queues. -/
theorem net_held {c : Sidechain.Call} {d : ChainId}
    (hne : (m.senders d).self ≠ (m.net.l2 d).self)
    (hkept : Kept (m.senders d).self (m.net.l2 d).tokens (n'.l2 d).tokens)
    (hconf : m.Configured (.net c)) (hx : m.net.exec sender c = .ok n') :
    m.held d + c.feesOn d ≤ ({ m with net := n' } : Bridged β γ).held d := by
  have hless : m.held d ≤ ({ m with net := n' } : Bridged β γ).held d := hkept _
  cases c with
  | l2 c e =>
    by_cases hcd : c = d
    · subst hcd
      cases e with
      | queueNewRewards k l =>
        obtain ⟨⟨s, ms⟩, hq, hn⟩ := bind_eq_ok.1 hx
        cases hn
        obtain ⟨hqueue, rfl⟩ := L2Coordinator.quiet_eq_ok hq
        have hheld := held_queueNewRewards hne hconf hqueue
        have hfees : (Sidechain.Call.l2 c (.queueNewRewards k l)).feesOn c = k := if_pos rfl
        have hset : (m.net.setL2 c s).l2 c = s := setL2_l2_self
        rw [hfees]
        unfold held
        show _ ≤ (((m.net.setL2 c s).l2 c).tokens _).balanceOf _
        rw [hset]
        exact hheld
      | _ =>
        show m.held c + (if c = c then 0 else 0) ≤ _
        rw [if_pos rfl]
        exact hless
    · have hnone : (Sidechain.Call.l2 c e).feesOn d = 0 := if_neg hcd
      rw [hnone]
      exact hless
  | _ => exact hless

theorem Backed.net {c : Sidechain.Call} (hb : SparesOthers β) (h : Backed log m)
    (hc : m.IsCaller sender (.net c)) (hconf : m.Configured (.net c))
    (hx : m.net.exec sender c = .ok n') :
    Backed (log ++ [⟨sender, .net c⟩]) { m with net := n' } := by
  have hspared : ∀ d, Spared m.net n' (m.receivers d).self := fun d =>
    exec_spared hb hc.1 (h.apart.receiver_ne d) (fun he => hc.2 d he.symm) hx
  refine ⟨h.apart.of_eq (fun _ => rfl) rfl (hspared 0).l1_self (hspared 0).l2_self fun _ => rfl,
    fun d => ?_⟩
  have hcov := h.covered d
  have hset := (hspared d).settled d
  have hreceived : m.received d ≤ ({ m with net := n' } : Bridged β γ).received d := by
    unfold received
    dsimp only
    rw [(hspared d).balToken]
    exact (hspared d).l1 _
  have hheld := net_held (h.apart.sender_ne d) ((hspared d).l2 d _ (h.apart.sender_ne d)) hconf hx
  rw [queued_append]
  show queued log d + c.feesOn d ≤ _
  unfold cover at hcov ⊢
  have hcross : ({ m with net := n' } : Bridged β γ).crossing d = m.crossing d := rfl
  dsimp only at hset hheld hreceived hcov ⊢
  omega

omit [Booster β] in
/-- BAL leaves for the receiver. -/
theorem Backed.send {chain : ChainId} {k : ℕ} (hlaw : TokenBridge.Lawful γ) (h : Backed log m)
    (hconf : m.Configured (.send chain k)) (hx : m.send chain sender k = .ok m') :
    Backed (log ++ [⟨sender, .send chain k⟩]) m' := by
  obtain ⟨r, hr, hx⟩ := bind_eq_ok.1 hx
  cases hx
  obtain ⟨bridge, t₁, hbal, htakes⟩ := BridgeDelegateSender.send_eq_ok hr
  obtain ⟨howes, hmono, hheld, -, hescrow⟩ := hlaw.takes htakes
  have hdst : (m.senders chain).destination = (m.receivers chain).self := hconf
  rw [hdst] at howes
  rw [hbal] at hheld
  refine ⟨h.apart.of_eq (fun _ => rfl) rfl rfl (fun c => ?_) fun c => ?_, fun c => ?_⟩
  · by_cases hc : chain = c
    · subst hc
      dsimp only
      rw [setL2_l2_self]
    · dsimp only
      rw [setL2_l2_of_ne hc]
  · by_cases hc : c = chain
    · subst hc
      dsimp only
      rw [update_self]
      exact hescrow
    · dsimp only
      rw [update_of_ne hc]
  · have hcov := h.covered c
    rw [queued_append]
    refine (show queued log c + 0 ≤ _ from hcov).trans ?_
    unfold cover held crossing received
    dsimp only
    rw [setL2_l1]
    by_cases hc : c = chain
    · subst hc
      rw [setL2_l2_self]
      dsimp only
      rw [update_self, update_self]
      omega
    · rw [setL2_l2_of_ne (Ne.symm hc), update_of_ne hc]

omit [Booster β] in
/-- BAL arrives. -/
theorem Backed.pays {chain : ChainId} {k : ℕ} (hlaw : TokenBridge.Lawful γ) (h : Backed log m)
    (hx : m.pays chain k = .ok m') : Backed (log ++ [⟨sender, .pays chain k⟩]) m' := by
  obtain ⟨r, hr, hx⟩ := bind_eq_ok.1 hx
  cases hx
  obtain ⟨hpays, hescrow⟩ := hlaw.pays hr
  refine ⟨h.apart.of_eq (fun _ => rfl) rfl rfl (fun _ => rfl) fun c => ?_, fun c => ?_⟩
  · by_cases hc : c = chain
    · subst hc
      dsimp only
      rw [update_self]
      exact hescrow
    · dsimp only
      rw [update_of_ne hc]
  · have hcov := h.covered c
    obtain ⟨hboth, hmore⟩ := hpays _ (h.apart.escrow_ne c chain)
    rw [queued_append]
    refine (show queued log c + 0 ≤ _ from hcov).trans ?_
    unfold cover held crossing received
    dsimp only
    rw [update_self]
    by_cases hc : c = chain
    · subst hc
      rw [update_self]
      omega
    · rw [update_of_ne hc]
      omega

omit [Booster β] in
/-- A receiver settles what it pays for. -/
theorem Backed.settleFeeDebt {chain : ChainId} {k : ℕ} (h : Backed log m)
    (hx : m.settleFeeDebt chain sender k = .ok m') :
    Backed (log ++ [⟨sender, .settleFeeDebt chain k⟩]) m' := by
  obtain ⟨l1, hl1, hx⟩ := bind_eq_ok.1 hx
  cases hx
  obtain ⟨-, hl1⟩ := require_bind_eq_ok.1 hl1
  have hset := (L1Coordinator.settleFeeDebt_eq_ok (h.apart.receiver_ne chain) hl1).settledFeeDebtOf
  obtain ⟨t, ht, hself, hbal, htokens⟩ := L1Coordinator.settleFeeDebt_tokens hl1
  have hb := (Erc20.transferFrom_eq_ok ht).2.2.1
  refine ⟨h.apart.of_eq (fun _ => rfl) rfl hself (fun _ => rfl) fun _ => rfl, fun c => ?_⟩
  have hcov := h.covered c
  rw [queued_append]
  refine (show queued log c + 0 ≤ _ from hcov).trans ?_
  unfold cover held crossing received
  dsimp only
  rw [hset, hbal, htokens, update_self, hb]
  by_cases hc : c = chain
  · subst hc
    have hloss := le_move_add (m.net.l1.tokens m.net.l1.balToken).balanceOf (m.receivers c).self
      m.net.l1.self k (m.receivers c).self
    rw [update_self]
    omega
  · have hne : (m.receivers chain).self ≠ (m.receivers c).self := fun he =>
      hc (h.apart.receiver_inj _ _ he).symm
    have hkept : (m.net.l1.tokens m.net.l1.balToken).balanceOf (m.receivers c).self ≤
        move _ _ m.net.l1.self k _ := Erc20.le_move _ k hne
    rw [update_of_ne hc]
    omega

omit [Booster β] in
/-- The settings of a delegate do not matter. -/
theorem Backed.setSender {chain : ChainId} {s : BridgeDelegateSender} {c : Call}
    (h : Backed log m) (hself : s.self = (m.senders chain).self)
    (hcrv : s.crv = (m.senders chain).crv) (hfees : ∀ d, c.feesOn d = 0) :
    Backed (log ++ [⟨sender, c⟩]) (m.setSender chain s) := by
  have hsame : ∀ d, ((m.setSender chain s).senders d).self = (m.senders d).self ∧
      ((m.setSender chain s).senders d).crv = (m.senders d).crv := by
    intro d
    unfold Bridged.setSender
    by_cases hd : d = chain
    · subst hd
      dsimp only
      rw [update_self]
      exact ⟨hself, hcrv⟩
    · dsimp only
      rw [update_of_ne hd]
      exact ⟨rfl, rfl⟩
  refine ⟨h.apart.of_eq (fun d => (hsame d).1) rfl rfl (fun _ => rfl) fun _ => rfl, fun d => ?_⟩
  rw [queued_append, hfees, Nat.add_zero]
  have hheld : (m.setSender chain s).held d = m.held d := by
    unfold held
    rw [(hsame d).1, (hsame d).2]
    rfl
  have hcov := h.covered d
  unfold cover at hcov ⊢
  rw [hheld]
  exact hcov

theorem Run.backed (hlaw : TokenBridge.Lawful γ) (hb : SparesOthers β) (h : Run log m) :
    Backed log m := by
  induction h with
  | deployed h => exact .deployed h
  | elsewhere _ he ih => exact ih.elsewhere he
  | @call _ _ _ _ c _ hc hconf hx ih =>
    cases c with
    | net d =>
      obtain ⟨net, hnet, hx⟩ := bind_eq_ok.1 hx
      cases hx
      exact ih.net hb hc hconf hnet
    | setL1Receiver chain a =>
      obtain ⟨s, hs, hx⟩ := bind_eq_ok.1 hx
      cases hx
      obtain ⟨-, hs⟩ := require_bind_eq_ok.1 hs
      obtain ⟨-, hs⟩ := require_bind_eq_ok.1 hs
      cases hs
      exact ih.setSender rfl rfl fun _ => rfl
    | updateAuthorizedKeepers chain a b =>
      obtain ⟨s, hs, hx⟩ := bind_eq_ok.1 hx
      cases hx
      obtain ⟨-, hs⟩ := require_bind_eq_ok.1 hs
      cases hs
      exact ih.setSender rfl rfl fun _ => rfl
    | send chain k => exact ih.send hlaw hconf hx
    | pays chain k => exact ih.pays hlaw hx
    | settleFeeDebt chain k => exact ih.settleFeeDebt hx

/-! ### The books -/

/-- For the coordinators, WETH that a delegate sends moves elsewhere. -/
theorem send_elsewhere (hlaw : TokenBridge.Lawful γ) (hapart : m.Apart) {chain : ChainId} {k : ℕ}
    (hx : m.exec sender (.send chain k) = .ok m') : m.net.Elsewhere m'.net := by
  obtain ⟨r, hr, hx⟩ := bind_eq_ok.1 hx
  cases hx
  obtain ⟨bridge, t₁, hbal, htakes⟩ := BridgeDelegateSender.send_eq_ok hr
  obtain ⟨-, -, -, hothers, -⟩ := hlaw.takes htakes
  refine ⟨⟨_, _, rfl⟩, fun d => ?_, rfl⟩
  dsimp only
  by_cases hd : chain = d
  · subst hd
    rw [setL2_l2_self]
    have hself := hothers _ (hapart.sender_ne chain).symm
    rw [hbal] at hself
    exact ⟨_, rfl, Kept.update hself _⟩
  · rw [setL2_l2_of_ne hd]
    exact ⟨_, rfl, le_rfl⟩

/-- A settlement is a call of the L1Coordinator by the receiver. -/
theorem settleFeeDebt_net {chain : ChainId} {k : ℕ}
    (hx : m.exec sender (.settleFeeDebt chain k) = .ok m') :
    m.net.exec (m.receivers chain).self (.l1 (.settleFeeDebt chain k)) = .ok m'.net := by
  obtain ⟨l1, hl1, hx⟩ := bind_eq_ok.1 hx
  cases hx
  obtain ⟨-, hl1⟩ := require_bind_eq_ok.1 hl1
  show (L1Coordinator.exec.quiet _ >>= _) = _
  rw [hl1]
  rfl

/-- Without the delegates and the bridges, a run is one of the coordinators. -/
theorem Run.coordinators (hlaw : TokenBridge.Lawful γ) (hb : SparesOthers β) (h : Run log m) :
    ∃ log', Sidechain.Run (fun _ _ => True) log' m.net ∧ ∀ c, queuedFees log' c = queued log c := by
  induction h with
  | deployed h => exact ⟨[], .deployed h.net, fun _ => rfl⟩
  | elsewhere _ he ih =>
    obtain ⟨log', hrun, hq⟩ := ih
    exact ⟨log', .elsewhere hrun he.net, hq⟩
  | @call log m m' sender c hrun hc hconf hx ih =>
    have hapart := (hrun.backed hlaw hb).apart
    obtain ⟨log', hnet, hq⟩ := ih
    have hquiet : ∀ d, c.feesOn d = 0 → queuedFees log' d = queued (log ++ [⟨sender, c⟩]) d := by
      intro d hd
      rw [queued_append, hd]
      exact hq d
    cases c with
    | net d =>
      obtain ⟨net, hd, hx⟩ := bind_eq_ok.1 hx
      cases hx
      refine ⟨_, .call hnet hc.1 trivial hd, fun c => ?_⟩
      rw [queuedFees_append, queued_append, hq]
      rfl
    | setL1Receiver chain a | updateAuthorizedKeepers chain a b =>
      obtain ⟨s, -, hx⟩ := bind_eq_ok.1 hx
      cases hx
      exact ⟨log', hnet, fun d => hquiet d rfl⟩
    | send chain k =>
      exact ⟨log', .elsewhere hnet (send_elsewhere hlaw hapart hx), fun d => hquiet d rfl⟩
    | pays chain k =>
      obtain ⟨r, -, hx⟩ := bind_eq_ok.1 hx
      cases hx
      exact ⟨log', .elsewhere hnet ⟨⟨_, _, rfl⟩, fun _ => ⟨_, rfl, le_rfl⟩, rfl⟩,
        fun d => hquiet d rfl⟩
    | settleFeeDebt chain k =>
      have hcaller : m.net.IsCaller (m.receivers chain).self (.l1 (.settleFeeDebt chain k)) :=
        ⟨hapart.receiver_ne_zero chain, hapart.receiver_ne chain⟩
      refine ⟨_, .call hnet hcaller trivial (settleFeeDebt_net hx), fun d => ?_⟩
      rw [queuedFees_append]
      exact hquiet d rfl

variable (m) in
/-- The fees of `c` that were not settled : pending on the sidechain, in a message that was not
processed, or a debt. -/
def unsettled (c : ChainId) : ℕ :=
  (m.net.l2 c).pendingNotifyFees + outstanding (feesFrom c) m.net +
    (m.net.l1.feeDebtOf c - m.net.l1.settledFeeDebtOf c)

theorem Run.unsettled_le (hlaw : TokenBridge.Lawful γ) (hb : SparesOthers β) (h : Run log m)
    (c : ChainId) : m.unsettled c ≤ m.held c + m.crossing c + m.received c := by
  obtain ⟨log', hrun, hq⟩ := h.coordinators hlaw hb
  have hbooks := hrun.books c
  have hqueued := hbooks.queued
  have hsettled := hbooks.settled_le
  have hcov := (h.backed hlaw hb).covered c
  rw [hq] at hqueued
  unfold cover at hcov
  unfold unsettled
  omega

/-- In every run, in whatever order the messages of the coordinators and the transfers of the
bridges arrive : the fees of a sidechain that were not settled, whether they are still pending
there, on their way in a message, failed, or a debt, are covered by the BAL of its delegates
and of the bridge. -/
theorem fees_backed (hlaw : TokenBridge.Lawful γ) (hb : SparesOthers β) (h : Run log m)
    (c : ChainId) :
    m.unsettled c ≤ m.held c + m.crossing c + m.received c :=
  h.unsettled_le hlaw hb c

/-- Once the delegate on the sidechain has sent all of its BAL and the bridge has paid it, the
owner of the receiver can settle any part of the debt, so all of it, if the allowance of the
receiver is large enough. As much BAL moves from the receiver to the coordinator. -/
theorem debt_settles (hlaw : TokenBridge.Lawful γ) (hb : SparesOthers β) (h : Run log m)
    (c : ChainId) {k : ℕ} (hheld : m.held c = 0) (hcrossing : m.crossing c = 0)
    (hdelegate : m.net.l1.bridgeDelegates c = (m.receivers c).self)
    (hword : m.net.l1.feeDebtOf c < 2 ^ 256)
    (hallowance : k ≤ (m.net.l1.tokens m.net.l1.balToken).allowance (m.receivers c).self
      m.net.l1.self)
    (hk : k ≤ m.net.l1.feeDebtOf c - m.net.l1.settledFeeDebtOf c) :
    ∃ m', m.settleFeeDebt c (m.receivers c).owner k = .ok m' ∧
      m'.net.l1.settledFeeDebtOf c = m.net.l1.settledFeeDebtOf c + k ∧
      (m'.net.l1.tokens m.net.l1.balToken).balanceOf = move
        (m.net.l1.tokens m.net.l1.balToken).balanceOf (m.receivers c).self m.net.l1.self k := by
  have hapart := (h.backed hlaw hb).apart
  have hcover := h.unsettled_le hlaw hb c
  obtain ⟨log', hrun, -⟩ := h.coordinators hlaw hb
  have hsettled := (hrun.books c).settled_le
  have hbal : k ≤ m.received c := by
    unfold unsettled at hcover
    omega
  obtain ⟨t, ht⟩ := Erc20.exists_transferFrom _ (hapart.receiver_ne_zero c) hapart.l1_ne_zero
    hapart.l1_ne_zero hbal hallowance
  have hsub : AuraMath.sub (m.net.l1.feeDebtOf c) (m.net.l1.settledFeeDebtOf c) = .ok _ :=
    usub_of hsettled
  have hadd : AuraMath.add (m.net.l1.settledFeeDebtOf c) k = .ok _ := uadd_of (by omega)
  unfold settleFeeDebt BridgeDelegateReceiver.settleFeeDebt L1Coordinator.settleFeeDebt
  dsimp only
  rw [require_of rfl, ok_bind, require_of hdelegate, ok_bind, hsub, ok_bind, require_of hk, ok_bind,
    hadd, ok_bind, hdelegate, ht]
  obtain ⟨-, -, hmoved, -⟩ := Erc20.transferFrom_eq_ok ht
  refine ⟨_, rfl, update_self _ _ _, ?_⟩
  show (update m.net.l1.tokens m.net.l1.balToken t m.net.l1.balToken).balanceOf = _
  rw [update_self, hmoved]

/-! ## Computed runs -/

/-- What a call needs that can be computed. -/
def Ready (n : Bridged β γ) (e : Event) : Prop :=
  (match e.call with
    | .net c => n.net.IsCaller e.sender c
    | _ => True) ∧ n.Configured e.call

instance (n : Bridged β γ) : (c : Call) → Decidable (n.Configured c)
  | .net (.l2 _ (.queueNewRewards _ _)) => inferInstanceAs (Decidable (_ ∧ _ ∧ _))
  | .send _ _ => inferInstanceAs (Decidable (_ = _))
  | .net (.l2 _ (.transferOwnership _)) | .net (.l2 _ .renounceOwnership)
  | .net (.l2 _ (.setTrustedRemote _)) | .net (.l2 _ (.init _ _))
  | .net (.l2 _ (.setBridgeDelegate _)) | .net (.l2 _ (.mint _ _)) | .net (.l2 _ .notifyFees)
  | .net (.l1 _) | .net (.lzReceive _) | .net (.lzReceiveOutOfGas _) | .net (.retryMessage _)
  | .setL1Receiver _ _ | .updateAuthorizedKeepers _ _ _ | .pays _ _ | .settleFeeDebt _ _ =>
    inferInstanceAs (Decidable True)

instance (n : Bridged β γ) : (e : Event) → Decidable (n.Ready e)
  | ⟨_, .net _⟩ => inferInstanceAs (Decidable (_ ∧ _))
  | ⟨_, .setL1Receiver _ _⟩ | ⟨_, .updateAuthorizedKeepers _ _ _⟩ | ⟨_, .send _ _⟩
  | ⟨_, .pays _ _⟩ | ⟨_, .settleFeeDebt _ _⟩ => inferInstanceAs (Decidable (True ∧ _))

/-- Some calls, one after the other. -/
def play : Bridged β γ → List Event → Tx (Bridged β γ)
  | n, [] => .ok n
  | n, e :: log => if n.Ready e then n.exec e.sender e.call >>= (play · log) else .error .outOfGas

theorem exec_receivers {c : Call} (h : m.exec sender c = .ok m') : m'.receivers = m.receivers := by
  cases c with
  | pays _ _ | send _ _ | settleFeeDebt _ _ | net _ | setL1Receiver _ _
  | updateAuthorizedKeepers _ _ _ =>
    obtain ⟨_, -, h⟩ := bind_eq_ok.1 h
    cases h
    rfl

theorem Run.play {log₀ : List Event} (h : Run log₀ m)
    (hsenders : ∀ e ∈ log, ∀ c, e.sender ≠ (m.receivers c).self)
    (hp : m.play log = .ok m') : Run (log₀ ++ log) m' := by
  induction log generalizing m log₀ with
  | nil =>
    cases hp
    rwa [List.append_nil]
  | cons e log ih =>
    unfold Bridged.play at hp
    split_ifs at hp with hready
    obtain ⟨m₁, hx, hp⟩ := bind_eq_ok.1 hp
    have hcaller : m.IsCaller e.sender e.call := by
      have hself := hsenders e List.mem_cons_self
      obtain ⟨hnet, -⟩ := hready
      cases hcall : e.call with
      | net d =>
        rw [hcall] at hnet
        exact ⟨hnet, hself⟩
      | _ => trivial
    rw [List.append_cons]
    refine ih (h.call hcaller hready.2 hx) (fun d hd => ?_) hp
    rw [exec_receivers hx]
    exact hsenders d (List.mem_cons_of_mem _ hd)

end Bridged

/-! ### A bridge -/

/-- A bridge that burns on the sidechain and pays from `escrow`. -/
structure BurnBridge where
  escrow : Address
  pending : Address → ℕ

/-- The account of a number. -/
def BurnBridge.account (k : ℕ) : Address :=
  OfNat.ofNat k

open BurnBridge in
instance : TokenBridge BurnBridge where
  takes b _ sender dst n t := do
    let t ← t.burn sender n
    .ok ({ b with pending := update b.pending dst (b.pending dst + n) }, t)
  pays b k t := do
    let dst := account k
    let t ← t.transfer b.escrow dst (b.pending dst)
    .ok ({ b with pending := update b.pending dst 0 }, t)
  owes b a := b.pending a
  escrow b := b.escrow

theorem BurnBridge.lawful : TokenBridge.Lawful BurnBridge where
  takes {b bridge sender dst n t r} h := by
    obtain ⟨t', ht, h⟩ := bind_eq_ok.1 h
    cases h
    obtain ⟨hle, hb, -⟩ := Erc20.burn_eq_ok ht
    refine ⟨?_, fun a => ?_, ?_, fun a ha => ?_, rfl⟩
    · show _ ≤ update b.pending dst (b.pending dst + n) dst
      rw [update_self]
      exact le_rfl
    · show b.pending a ≤ update b.pending dst (b.pending dst + n) a
      by_cases ha : a = dst
      · rw [ha, update_self]
        exact Nat.le_add_right _ _
      · rw [update_of_ne ha]
    · rw [hb, update_self]
      omega
    · rw [hb, update_of_ne ha]
  pays {b k t r} h := by
    obtain ⟨t', ht, h⟩ := bind_eq_ok.1 h
    cases h
    obtain ⟨-, -, hle, hb, -⟩ := Erc20.transfer_eq_ok ht
    refine ⟨fun a ha => ?_, rfl⟩
    show b.pending a + _ ≤ update b.pending (account k) 0 a + t'.balanceOf a ∧ _
    have ha : a ≠ b.escrow := ha
    rw [hb]
    by_cases hk : a = account k
    · subst hk
      rw [update_self, move_dst _ _ ha.symm]
      omega
    · rw [update_of_ne hk, move_of_ne _ _ ha hk]
      exact ⟨le_rfl, le_rfl⟩

theorem FeeBooster.sparesOthers (crv aura : Address) : SparesOthers (FeeBooster crv aura) := by
  intro b booster sender n tokens r h T a ha
  obtain ⟨-, h⟩ := require_bind_eq_ok.1 h
  obtain ⟨eligible, -, h⟩ := bind_eq_ok.1 h
  obtain ⟨t, ht, h⟩ := bind_eq_ok.1 h
  obtain ⟨amount, -, h⟩ := bind_eq_ok.1 h
  obtain ⟨x, hx, h⟩ := bind_eq_ok.1 h
  cases h
  dsimp only
  by_cases hT : T = aura
  · subst hT
    rw [update_self, (Erc20.mint_eq_ok hx).2.1, update_of_ne ha]
  · rw [update_of_ne hT]
    refine Kept.update ?_ T
    rw [(Erc20.transferFrom_eq_ok ht).2.2.1]
    exact Erc20.le_move _ _ ha.symm

/-! ### A run -/

open BurnBridge in
/-- The deployment with a delegate on every chain that uses the bridge of Optimism. The bridge
pays from the account `107`. -/
def bridgedDeployment : Bridged (FeeBooster 102 103) BurnBridge where
  net := deployment
  bridges _ := ⟨107, fun _ => 0⟩
  senders _ := ⟨207, 500, fun _ => false, .optimism, 202, 208, 0⟩
  receivers c := ⟨account (1000 + Fin.val (n := 2 ^ 16) c), 500⟩

theorem BurnBridge.account_inj {k l : ℕ} (hk : k < 2 ^ 160) (hl : l < 2 ^ 160)
    (h : account k = account l) : k = l := by
  have hval : k % 2 ^ 160 = l % 2 ^ 160 := congrArg (Fin.val (n := 2 ^ 160)) h
  rwa [Nat.mod_eq_of_lt hk, Nat.mod_eq_of_lt hl] at hval

/-- No receiver is an account with a small number. -/
theorem receivers_ne (c : ChainId) {k : ℕ} (hk : k < 1000) :
    (bridgedDeployment.receivers c).self ≠ BurnBridge.account k := by
  have hc : Fin.val (n := 2 ^ 16) c < 2 ^ 16 := c.isLt
  intro he
  have := BurnBridge.account_inj (by omega) (by omega) he
  omega

theorem bridgedDeployment_deployed : bridgedDeployment.Deployed where
  net := deployment_deployed
  apart :=
    { sender_ne := fun _ => show (207 : Address) ≠ 201 by decide
      receiver_ne := fun c => receivers_ne c (show 101 < 1000 by decide)
      l1_ne_zero := show (101 : Address) ≠ 0 by decide
      receiver_ne_zero := fun c => receivers_ne c (show 0 < 1000 by decide)
      receiver_inj := fun c c' he => by
        have hc : Fin.val (n := 2 ^ 16) c < 2 ^ 16 := c.isLt
        have hc' : Fin.val (n := 2 ^ 16) c' < 2 ^ 16 := c'.isLt
        have := BurnBridge.account_inj (by omega) (by omega) he
        exact Fin.ext (by omega)
      escrow_ne := fun c _ => receivers_ne c (show 107 < 1000 by decide) }

/-- The sidechain `110` is set up, queues fees, sends the BAL and tells of the fees. -/
def bridgedFees : List Bridged.Event :=
  (setup 202).map (fun e => ⟨e.sender, .net e.call⟩) ++
    [⟨500, .net (.l1 (.setBridgeDelegate 110 1110))⟩, ⟨500, .setL1Receiver 110 1110⟩,
      ⟨500, .updateAuthorizedKeepers 110 600 true⟩,
      ⟨206, .net (.l2 110 (.queueNewRewards 165 1000))⟩, ⟨600, .send 110 (10 ^ 30)⟩,
      ⟨600, .net (.l2 110 .notifyFees)⟩]

/-- The BAL and then the message arrive. -/
def bridgedArrivals : List Bridged.Event :=
  [⟨600, .pays 110 1110⟩, ⟨600, .net (.lzReceive (.toL1 110 (.fees 165)))⟩]

theorem bridged_senders : ∀ e ∈ bridgedFees ++ bridgedArrivals, ∀ c,
    e.sender ≠ (bridgedDeployment.receivers c).self := by
  have hsmall : ∀ e ∈ bridgedFees ++ bridgedArrivals, e.sender = BurnBridge.account 500 ∨
      e.sender = BurnBridge.account 206 ∨ e.sender = BurnBridge.account 600 := by decide
  intro e he c heq
  rcases hsmall e he with h | h | h
  · exact receivers_ne c (show 500 < 1000 by decide) (heq.symm.trans h)
  · exact receivers_ne c (show 206 < 1000 by decide) (heq.symm.trans h)
  · exact receivers_ne c (show 600 < 1000 by decide) (heq.symm.trans h)

/-- The fees are in a message and their BAL in the bridge. -/
theorem fees_backed_run : ∃ m : Bridged (FeeBooster 102 103) BurnBridge,
    Bridged.Run bridgedFees m ∧ m.held 110 = 0 ∧ m.received 110 = 0 ∧
      m.unsettled 110 ≤ m.held 110 + m.crossing 110 + m.received 110 := by
  have hvalues : (bridgedDeployment.play bridgedFees).map (fun m =>
      (m.held 110, m.received 110)) = .ok (0, 0) := by decide +kernel
  cases hm : bridgedDeployment.play bridgedFees with
  | error e =>
    rw [hm] at hvalues
    cases hvalues
  | ok m =>
    rw [hm] at hvalues
    obtain ⟨hheld, hreceived⟩ := Prod.mk.inj (Except.ok.inj hvalues)
    have hrun : Bridged.Run ([] ++ bridgedFees) m :=
      (Bridged.Run.deployed bridgedDeployment_deployed).play
        (fun e he => bridged_senders e (List.mem_append_left _ he)) hm
    exact ⟨m, hrun, hheld, hreceived,
      Bridged.fees_backed BurnBridge.lawful (FeeBooster.sparesOthers 102 103) hrun 110⟩

/-- All of the debt is settled, and the receiver has paid as much BAL. -/
theorem debt_settles_run : ∃ m m' : Bridged (FeeBooster 102 103) BurnBridge,
    Bridged.Run (bridgedFees ++ bridgedArrivals) m ∧ m.settleFeeDebt 110 500 165 = .ok m' ∧
      m'.net.l1.settledFeeDebtOf 110 = 165 ∧ m.received 110 = 10 ^ 30 ∧
      (m'.net.l1.tokens m.net.l1.balToken).balanceOf 1110 = 10 ^ 30 - 165 := by
  have hvalues : (bridgedDeployment.play (bridgedFees ++ bridgedArrivals)).map (fun m =>
      (m.held 110, m.crossing 110, m.received 110, m.net.l1.feeDebtOf 110,
        m.net.l1.settledFeeDebtOf 110)) = .ok (0, 0, 10 ^ 30, 165, 0) := by decide +kernel
  have hsettings : (bridgedDeployment.play (bridgedFees ++ bridgedArrivals)).map (fun m =>
      (m.net.l1.bridgeDelegates 110, m.receivers 110 |>.self, m.receivers 110 |>.owner,
        (m.net.l1.tokens m.net.l1.balToken).allowance (m.receivers 110).self m.net.l1.self)) =
      .ok (1110, 1110, 500, 2 ^ 256 - 1) := by decide +kernel
  cases hm : bridgedDeployment.play (bridgedFees ++ bridgedArrivals) with
  | error e =>
    rw [hm] at hvalues
    cases hvalues
  | ok m =>
    rw [hm] at hvalues hsettings
    have hvalues := Except.ok.inj hvalues
    have hsettings := Except.ok.inj hsettings
    simp only [Prod.mk.injEq] at hvalues hsettings
    obtain ⟨hheld, hcrossing, hreceived, hdebt, hsettled⟩ := hvalues
    obtain ⟨hdelegate, hself, howner, hallowance⟩ := hsettings
    have hrun : Bridged.Run ([] ++ (bridgedFees ++ bridgedArrivals)) m :=
      (Bridged.Run.deployed bridgedDeployment_deployed).play bridged_senders hm
    have hapart := hrun.backed BurnBridge.lawful (FeeBooster.sparesOthers 102 103) |>.apart
    obtain ⟨m', hx, hm', hmoved⟩ := Bridged.debt_settles BurnBridge.lawful
      (FeeBooster.sparesOthers 102 103) hrun 110 (k := 165) hheld hcrossing
      (hdelegate.trans hself.symm) (by rw [hdebt]; decide) (by rw [hallowance]; decide)
      (by rw [hdebt, hsettled])
    rw [howner] at hx
    rw [hsettled] at hm'
    refine ⟨m, m', hrun, hx, hm', hreceived, ?_⟩
    have hpaid : (m.net.l1.tokens m.net.l1.balToken).balanceOf (m.receivers 110).self = 10 ^ 30 :=
      hreceived
    rw [hmoved, ← hself, move_src _ _ (hapart.receiver_ne 110), hpaid]

end Aura.Sidechain
